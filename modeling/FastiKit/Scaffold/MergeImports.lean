import FastiKit.Language.LineParser
import FastiKit.Scaffold.Names

/- The imports that are merged into a module that exists.

   Correspondence (Python ↔ Lean):
     `_imported`        ↔ `imported`
     `merge_imports`    ↔ `mergeImports`

   What is proved: where the place it inserts at is between two statements, the merge
   keeps the lines of the module, binds what the imports bind and is done once, if and
   only if what it takes for present is bound (`merge_sound_iff`): the pairs it compares
   leave out the name an import is bound to. -/
namespace FastiKit.Scaffold.MergeImports
open Ast Lines

/-- The modules and names imported by the statements of a body. -/
def imported (stmts : List Ast.Stmt) : List (Option String × String) :=
  stmts.flatMap (fun
    | .importFrom _ module names => names.map (fun a => (module, a.name))
    | .importNames names => names.map (fun a => (none, a.name))
    | _ => [])

def isImport : Ast.Stmt → Bool
  | .importFrom .. => true
  | .importNames _ => true
  | _ => false

variable (parse : Parser)

/-- The imports that are not all there; one of them may not parse. -/
def missing (present : List (Option String × String)) : List String → Option (List String)
  | [] => some []
  | line :: rest =>
    match body parse line, missing present rest with
    | some stmts, some others => some (if imported stmts ⊆ present then others else line :: others)
    | _, _ => none

/-- The line after which the imports go: after the last import, after a docstring, or first. -/
def insertAt (nodes : List Node) : Nat :=
  match (nodes.filter (fun node => isImport node.stmt)).getLast? with
  | some node => node.endLine
  | none =>
    match nodes with
    | ⟨.constant, endLine⟩ :: _ => endLine
    | _ => 0

/-- A blank line goes between a docstring and the imports. -/
def spacing (nodes : List Node) : List String :=
  match (nodes.filter (fun node => isImport node.stmt)).getLast? with
  | some _ => []
  | none =>
    match nodes with
    | ⟨.constant, _⟩ :: _ => [""]
    | _ => []

def mergeImports (content : String) (imports : List String) : Except Raised String :=
  match parse content with
  | none => .error .syntaxError
  | some nodes =>
    match missing parse (imported (nodes.map Node.stmt)) imports with
    | none => .error .syntaxError
    | some [] => .ok content
    | some added =>
      let lines := splitlines content
      .ok (Lines.strip ("\n".intercalate (lines.take (insertAt nodes) ++ (spacing nodes ++ added) ++ lines.drop (insertAt nodes))) ++ "\n")

/-- Lines without the empty ones at their ends. -/
def trimmed (lines : List String) : List String := (lines.dropWhile (· = "")).rdropWhile (· = "")

/-- A module binds. -/
def Binds (text : String) (b : Binding) : Prop := ∃ stmts, body parse text = some stmts ∧ ∃ stmt ∈ stmts, b ∈ bindings stmt

/-- The merge is a module with the old lines in their order and what the imports bind, and
is not changed by them again. -/
structure Sound (content : String) (imports : List String) (result : String) : Prop where
  merged : mergeImports parse content imports = .ok result
  parses : body parse result ≠ none
  keeps : (trimmed (splitlines content)).Sublist (splitlines result)
  binds : ∀ line ∈ imports, ∀ b, Binds parse line b → Binds parse result b
  again : mergeImports parse result imports = .ok result

/-- The place is between two statements: what is before and what is after it are modules,
the empty lines at their ends apart. -/
structure Placed (content : String) (nodes : List Node) : Prop where
  before : bodyOf parse (((splitlines content).take (insertAt nodes)).dropWhile (· = "")) ≠ none
  after : bodyOf parse (((splitlines content).drop (insertAt nodes)).rdropWhile (· = "")) ≠ none

/-- All of its pairs are in the module. -/
def Present (content line : String) : Prop := ∃ stmts old, body parse line = some stmts ∧ body parse content = some old ∧
  imported stmts ⊆ imported old

/-- What an import binds that is not added, the module or an import that is added binds. -/
def Bound (content : String) (imports : List String) : Prop :=
  ∀ line ∈ imports, Present parse content line → ∀ b, Binds parse line b →
    Binds parse content b ∨ ∃ other ∈ imports, ¬ Present parse content other ∧ Binds parse other b

variable {parse} {content : String} {imports : List String} {nodes : List Node}

theorem body_eq (hparse : parse content = some nodes) : body parse content = some (nodes.map Node.stmt) := by
  rw [body, hparse, Option.map_some]

/-! What is missing. -/

theorem imported_subset {A B : List Ast.Stmt} (h : ∀ stmt ∈ A, stmt ∈ B) : imported A ⊆ imported B := by
  intro pair hpair
  obtain ⟨stmt, hstmt, hin⟩ := List.mem_flatMap.mp hpair
  exact List.mem_flatMap.mpr ⟨stmt, h stmt hstmt, hin⟩

/-- The imports that are added. -/
theorem missing_some (present : List (Option String × String)) (himports : ∀ line ∈ imports, body parse line ≠ none) : ∃ added, missing parse present imports = some added ∧
    ∀ line, line ∈ added ↔ line ∈ imports ∧ ∀ stmts, body parse line = some stmts → ¬ imported stmts ⊆ present := by
  induction imports with
  | nil => exact ⟨[], rfl, by simp⟩
  | cons line rest ih =>
    obtain ⟨others, hothers, hmem⟩ := ih (fun line hin => himports line (List.mem_cons_of_mem _ hin))
    obtain ⟨stmts, hstmts⟩ := Option.ne_none_iff_exists'.mp (himports line List.mem_cons_self)
    refine ⟨_, by simp only [missing, hstmts, hothers]; rfl, fun other => ?_⟩
    by_cases hsub : imported stmts ⊆ present
    · rw [if_pos hsub, hmem, List.mem_cons]
      constructor
      · exact fun h => ⟨.inr h.1, h.2⟩
      · intro ⟨hin, hnot⟩
        cases hin with
        | inl heq => exact absurd hsub (hnot stmts (heq ▸ hstmts))
        | inr hin => exact ⟨hin, hnot⟩
    · rw [if_neg hsub, List.mem_cons, List.mem_cons, hmem]
      constructor
      · intro h
        cases h with
        | inl heq =>
          refine ⟨.inl heq, fun stmts' hstmts' => ?_⟩
          rw [heq, hstmts] at hstmts'
          exact Option.some.inj hstmts' ▸ hsub
        | inr h => exact ⟨.inr h.1, h.2⟩
      · intro ⟨hin, hnot⟩
        exact hin.imp_right (fun hin => ⟨hin, hnot⟩)

theorem present_iff (hparse : parse content = some nodes) {line : String} (hline : body parse line ≠ none) :
    Present parse content line ↔ ¬ ∀ stmts, body parse line = some stmts → ¬ imported stmts ⊆ imported (nodes.map Node.stmt) := by
  obtain ⟨stmts, hstmts⟩ := Option.ne_none_iff_exists'.mp hline
  simp [Present, hstmts, body_eq hparse]

/-- If all is there, nothing is done. -/
theorem merge_done (himports : ∀ line ∈ imports, body parse line ≠ none) (hparse : parse content = some nodes)
    (h : ∀ line ∈ imports, ∀ stmts, body parse line = some stmts → imported stmts ⊆ imported (nodes.map Node.stmt)) :
    mergeImports parse content imports = .ok content := by
  obtain ⟨added, hadded, hmem⟩ := missing_some (imported (nodes.map Node.stmt)) himports
  have hnil : added = [] := by
    apply List.eq_nil_iff_forall_not_mem.mpr
    intro line hin
    obtain ⟨hin, hnot⟩ := (hmem line).mp hin
    obtain ⟨stmts, hstmts⟩ := Option.ne_none_iff_exists'.mp (himports line hin)
    exact hnot stmts hstmts (h line hin stmts hstmts)
  simp only [mergeImports, hparse, hadded, hnil]

/-! What is joined. -/

theorem blank_spacing (nodes : List Node) : ∀ line ∈ spacing nodes, line = "" := by
  have hspacing : spacing nodes = [] ∨ spacing nodes = [""] := by
    unfold spacing
    repeat' split
    all_goals simp
  intro line hin
  cases hspacing with
  | inl h => simp [h] at hin
  | inr h => simpa [h] using hin

/-- Empty lines say nothing. -/
theorem bodyOf_blanks (lawful : Lawful parse) (hempty : body parse "" = some []) (blanks : List String)
    (h : ∀ line ∈ blanks, line = "") : bodyOf parse blanks = some [] := by
  induction blanks with
  | nil => rfl
  | cons line rest ih =>
    rw [h line List.mem_cons_self]
    exact bodyOf_append lawful (bodyOf_singleton lawful hempty) (ih (fun line hin => h line (List.mem_cons_of_mem _ hin)))

theorem bodyOf_front (lawful : Lawful parse) (hempty : body parse "" = some []) {lines : List String} {A : List Ast.Stmt}
    (h : bodyOf parse (lines.dropWhile (· = "")) = some A) : bodyOf parse lines = some A := by
  have hblanks := bodyOf_blanks lawful hempty (lines.takeWhile (· = ""))
    (fun line hin => by simpa using List.mem_takeWhile_imp hin)
  have happ := bodyOf_append lawful hblanks h
  rwa [List.takeWhile_append_dropWhile, List.nil_append] at happ

theorem bodyOf_back (lawful : Lawful parse) (hempty : body parse "" = some []) {lines : List String} {A : List Ast.Stmt}
    (h : bodyOf parse (lines.rdropWhile (· = "")) = some A) : bodyOf parse lines = some A := by
  have hblanks := bodyOf_blanks lawful hempty (lines.rtakeWhile (· = ""))
    (fun line hin => by simpa using List.mem_rtakeWhile_imp hin)
  have happ := bodyOf_append lawful h hblanks
  rwa [List.rdropWhile_append_rtakeWhile, List.append_nil] at happ

/-- The blank line after a docstring is kept or goes with the others. -/
theorem bodyOf_spaced (lawful : Lawful parse) (hempty : body parse "" = some []) {lines blanks : List String} {A : List Ast.Stmt}
    (h : bodyOf parse (lines.dropWhile (· = "")) = some A) (hblanks : ∀ line ∈ blanks, line = "") :
    bodyOf parse ((lines ++ blanks).dropWhile (· = "")) = some A := by
  rw [List.dropWhile_append]
  split
  · next hnil =>
    rw [List.isEmpty_iff.mp hnil] at h
    rw [List.dropWhile_eq_nil_iff.mpr (by simpa using hblanks)]
    exact h
  · have happ := bodyOf_append lawful h (bodyOf_blanks lawful hempty _ hblanks)
    rwa [List.append_nil] at happ

theorem bodyOf_added (lawful : Lawful parse) {added : List String} (h : ∀ line ∈ added, body parse line ≠ none) : ∃ stmts,
    bodyOf parse added = some stmts ∧
      ∀ stmt, stmt ∈ stmts ↔ ∃ line ∈ added, ∃ here, body parse line = some here ∧ stmt ∈ here := by
  induction added with
  | nil => exact ⟨[], rfl, by simp⟩
  | cons line rest ih =>
    obtain ⟨later, hlater, hmem⟩ := ih (fun line hin => h line (List.mem_cons_of_mem _ hin))
    obtain ⟨here, hhere⟩ := Option.ne_none_iff_exists'.mp (h line List.mem_cons_self)
    refine ⟨here ++ later, bodyOf_append lawful (bodyOf_singleton lawful hhere) hlater, fun stmt => ?_⟩
    simp [hmem, hhere]

theorem rdropWhile_append {α : Type} {p : α → Bool} (xs ys : List α) : (xs ++ ys).rdropWhile p =
    if (ys.rdropWhile p).isEmpty then xs.rdropWhile p else xs ++ ys.rdropWhile p := by
  simp only [List.rdropWhile, List.reverse_append, List.dropWhile_append, List.isEmpty_reverse]
  split
  · rfl
  · simp

theorem trimmed_append (xs ys : List String) :
    (trimmed (xs ++ ys)).Sublist (xs.dropWhile (· = "") ++ ys.rdropWhile (· = "")) := by
  have hback : ∀ zs : List String, (zs.rdropWhile (· = "")).Sublist zs := fun zs => (List.rdropWhile_prefix _ _).sublist
  -- what is dropped first is in front of what is dropped last
  have hfront : ((ys.dropWhile (· = "")).rdropWhile (· = "")).Sublist (ys.rdropWhile (· = "")) := by
    have hsplit := rdropWhile_append (p := (· = "")) (ys.takeWhile (· = "")) (ys.dropWhile (· = ""))
    rw [List.takeWhile_append_dropWhile] at hsplit
    rw [hsplit]
    split
    · next hnil =>
      rw [List.isEmpty_iff.mp hnil]
      exact List.nil_sublist _
    · exact List.sublist_append_right _ _
  rw [trimmed, List.dropWhile_append]
  split
  · exact hfront.trans (List.sublist_append_right _ _)
  · rw [rdropWhile_append]
    split
    · exact (hback _).trans (List.sublist_append_left _ _)
    · exact List.Sublist.refl _

/-- A module of lines is what its lines say. -/
theorem bodyOf_content (lawful : Lawful parse) (hempty : body parse "" = some []) {A : List Ast.Stmt}
    (hbody : body parse content = some A)
    (hlines : content = unlines (splitlines content) ∨ content ++ "\n" = unlines (splitlines content)) :
    bodyOf parse (splitlines content) = some A := by
  by_cases hne : splitlines content = []
  · rw [hne] at hlines ⊢
    have hcontent : content = "" := by
      cases hlines with
      | inl h =>
        rw [h] at hne
        exact absurd hne (by decide)
      | inr h =>
        have hchars := congrArg String.toList h
        have hlength := congrArg List.length hchars
        rw [String.toList_append, List.length_append] at hlength
        exact String.toList_eq_nil_iff.mp (List.length_eq_zero_iff.mp (Nat.add_eq_right.mp hlength))
    rw [hcontent, hempty] at hbody
    exact hbody
  · exact bodyOf_splitlines lawful hbody hlines hne

theorem trimmed_sublist (lines : List String) : (trimmed lines).Sublist lines :=
  (List.rdropWhile_prefix _ _).sublist.trans (List.dropWhile_sublist _)

/-- What is written where imports are missing. -/
theorem merge_inserts (lawful : Lawful parse) (hempty : body parse "" = some []) (hparse : parse content = some nodes)
    (hlines : content = unlines (splitlines content) ∨ content ++ "\n" = unlines (splitlines content))
    (hplaced : Placed parse content nodes) {added : List String} (hadded : ∀ line ∈ added, body parse line ≠ none ∧ Unpadded line)
    (hmissing : missing parse (imported (nodes.map Node.stmt)) imports = some added) (hne : added ≠ []) : ∃ result B,
    mergeImports parse content imports = .ok result ∧ body parse result = some B ∧
      (∀ stmt, stmt ∈ B ↔ stmt ∈ nodes.map Node.stmt ∨ ∃ line ∈ added, ∃ here, body parse line = some here ∧ stmt ∈ here) ∧
      (trimmed (splitlines content)).Sublist (splitlines result) := by
  have hplain : ∀ line ∈ splitlines content, Plain line.toList := fun _ hin => plain_of_mem_splitlines hin
  have hbody := bodyOf_content lawful hempty (body_eq hparse) hlines
  obtain ⟨A, hA⟩ := Option.ne_none_iff_exists'.mp hplaced.before
  obtain ⟨C, hC⟩ := Option.ne_none_iff_exists'.mp hplaced.after
  obtain ⟨M, hM, hmem⟩ := bodyOf_added lawful (fun line hin => (hadded line hin).1)
  -- the statements before the place and after it are those of the module
  have hsplit : nodes.map Node.stmt = A ++ C := by
    have happ := bodyOf_append lawful (bodyOf_front lawful hempty hA) (bodyOf_back lawful hempty hC)
    rw [List.take_append_drop, hbody] at happ
    exact Option.some.inj happ
  have hfront := bodyOf_spaced lawful hempty hA (blank_spacing nodes)
  have hfrontPlain : ∀ line ∈ (splitlines content).take (insertAt nodes) ++ spacing nodes, Plain line.toList := by
    intro line hin
    cases List.mem_append.mp hin with
    | inl hin => exact hplain line (List.mem_of_mem_take hin)
    | inr hin =>
      rw [blank_spacing nodes line hin]
      exact nofun
  have hbackPlain : ∀ line ∈ (splitlines content).drop (insertAt nodes), Plain line.toList :=
    fun line hin => hplain line (List.mem_of_mem_drop hin)
  have hstrip := strip_joined hfrontPlain hbackPlain (fun line hin => (hadded line hin).2) hne
  rw [List.append_assoc _ (spacing nodes)] at hstrip
  refine ⟨unlines (((splitlines content).take (insertAt nodes) ++ spacing nodes).dropWhile (· = "") ++ added ++
    ((splitlines content).drop (insertAt nodes)).rdropWhile (· = "")), A ++ M ++ C, ?_, ?_, ?_, ?_⟩
  · rw [mergeImports, hparse]
    simp only [hmissing]
    cases added with
    | nil => exact absurd rfl hne
    | cons first rest => simp only [hstrip]
  · have hresult := bodyOf_append lawful (bodyOf_append lawful hfront hM) hC
    rw [bodyOf, if_neg (by simp [hne])] at hresult
    exact hresult
  · intro stmt
    rw [hsplit]
    simp only [List.mem_append, hmem]
    constructor
    · intro h
      obtain (h | h) | h := h
      · exact .inl (.inl h)
      · exact .inr h
      · exact .inl (.inr h)
    · intro h
      obtain (h | h) | h := h
      · exact .inl (.inl h)
      · exact .inr h
      · exact .inl (.inr h)
  · have hfirst : (((splitlines content).take (insertAt nodes)).dropWhile (· = "")).Sublist
        (((splitlines content).take (insertAt nodes) ++ spacing nodes).dropWhile (· = "")) := by
      rw [List.dropWhile_append]
      split
      · next hnil =>
        rw [List.isEmpty_iff.mp hnil]
        exact List.nil_sublist _
      · exact List.sublist_append_left _ _
    have htrimmed := trimmed_append ((splitlines content).take (insertAt nodes)) ((splitlines content).drop (insertAt nodes))
    rw [List.take_append_drop] at htrimmed
    rw [splitlines_append_unlines (fun line hin => hbackPlain line ((List.rdropWhile_prefix _ _).subset hin)) (by simp [hne]),
      splitlines_unlines_append (fun line hin => hfrontPlain line ((List.dropWhile_sublist _).subset hin)) hne]
    exact htrimmed.trans (List.Sublist.append (hfirst.trans (List.sublist_append_left _ _)) (List.Sublist.refl _))

/-! The merge is sound exactly if what is taken for present is bound. -/

theorem binds_of_mem {text : String} {B : List Ast.Stmt} (hbody : body parse text = some B) (b : Binding) :
    Binds parse text b ↔ ∃ stmt ∈ B, b ∈ bindings stmt := by
  simp [Binds, hbody]

/-- Where it inserts between two statements, or inserts nothing, `merge_imports` is sound
if and only if what is taken for present is bound. -/
theorem merge_sound_iff (lawful : Lawful parse) (hempty : body parse "" = some []) (content : String) (nodes : List Node)
    (hparse : parse content = some nodes)
    (hlines : content = unlines (splitlines content) ∨ content ++ "\n" = unlines (splitlines content)) (imports : List String)
    (himports : ∀ line ∈ imports, body parse line ≠ none ∧ Unpadded line)
    (hplaced : (∃ line ∈ imports, ¬ Present parse content line) → Placed parse content nodes) :
    (∃ result, Sound parse content imports result) ↔ Bound parse content imports := by
  have hparses : ∀ line ∈ imports, body parse line ≠ none := fun line hin => (himports line hin).1
  obtain ⟨added, hmissing, hmem⟩ := missing_some (imported (nodes.map Node.stmt)) hparses
  have hadded : ∀ line, line ∈ added ↔ line ∈ imports ∧ ¬ Present parse content line := by
    intro line
    rw [hmem]
    constructor
    · exact fun h => ⟨h.1, fun hpresent => (present_iff hparse (hparses line h.1)).mp hpresent h.2⟩
    · exact fun h => ⟨h.1, not_not.mp (fun hnot => h.2 ((present_iff hparse (hparses line h.1)).mpr hnot))⟩
  by_cases hne : added = []
  · have hall : ∀ line ∈ imports, Present parse content line := by
      intro line hin
      by_contra hnot
      have := (hadded line).mpr ⟨hin, hnot⟩
      simp [hne] at this
    have hdone : mergeImports parse content imports = .ok content := by
      simp only [mergeImports, hparse, hmissing, hne]
    constructor
    · intro ⟨result, h⟩ line hin _ b hb
      have hresult := h.merged
      rw [hdone] at hresult
      rw [Except.ok.inj hresult]
      exact .inl (h.binds line hin b hb)
    · intro h
      refine ⟨content, hdone, by simp [body_eq hparse], trimmed_sublist _, fun line hin b hb => ?_, hdone⟩
      obtain hold | ⟨other, hother, hnot, -⟩ := h line hin (hall line hin) b hb
      · exact hold
      · exact absurd (hall other hother) hnot
  · have hsome : ∃ line ∈ imports, ¬ Present parse content line := by
      obtain ⟨line, hline⟩ := List.exists_mem_of_ne_nil _ hne
      exact ⟨line, (hadded line).mp hline⟩
    obtain ⟨result, B, hmerged, hbody, hB, hkeeps⟩ := merge_inserts lawful hempty hparse hlines (hplaced hsome)
      (fun line hin => himports line ((hadded line).mp hin).1) hmissing hne
    have hbinds : ∀ b, Binds parse result b ↔ Binds parse content b ∨ ∃ line ∈ added, Binds parse line b := by
      intro b
      rw [binds_of_mem hbody, binds_of_mem (body_eq hparse)]
      constructor
      · intro ⟨stmt, hstmt, hb⟩
        obtain hold | ⟨line, hline, here, hhere, hin⟩ := (hB stmt).mp hstmt
        · exact .inl ⟨stmt, hold, hb⟩
        · exact .inr ⟨line, hline, here, hhere, stmt, hin, hb⟩
      · intro h
        obtain ⟨stmt, hold, hb⟩ | ⟨line, hline, here, hhere, stmt, hin, hb⟩ := h
        · exact ⟨stmt, (hB stmt).mpr (.inl hold), hb⟩
        · exact ⟨stmt, (hB stmt).mpr (.inr ⟨line, hline, here, hhere, hin⟩), hb⟩
    constructor
    · intro ⟨result', h⟩ line hin _ b hb
      have hresult := h.merged
      rw [hmerged] at hresult
      obtain rfl := Except.ok.inj hresult
      obtain hold | ⟨other, hother, hb⟩ := (hbinds b).mp (h.binds line hin b hb)
      · exact .inl hold
      · exact .inr ⟨other, ((hadded other).mp hother).1, ((hadded other).mp hother).2, hb⟩
    · intro h
      refine ⟨result, hmerged, by simp [hbody], hkeeps, fun line hin b hb => (hbinds b).mpr ?_, ?_⟩
      · by_cases hpresent : Present parse content line
        · obtain hold | ⟨other, hother, hnot, hb⟩ := h line hin hpresent b hb
          · exact .inl hold
          · exact .inr ⟨other, (hadded other).mpr ⟨hother, hnot⟩, hb⟩
        · exact .inr ⟨line, (hadded line).mpr ⟨hin, hpresent⟩, hb⟩
      · -- the pairs of every import are there now
        obtain ⟨nodes', hnodes, rfl⟩ := Option.map_eq_some_iff.mp hbody
        refine merge_done hparses hnodes (fun line hin stmts hstmts => ?_)
        by_cases hpresent : Present parse content line
        · obtain ⟨here, old, hhere, hold, hsub⟩ := hpresent
          obtain rfl := Option.some.inj (hhere.symm.trans hstmts)
          obtain rfl := Option.some.inj ((body_eq hparse).symm.trans hold)
          exact List.Subset.trans hsub (imported_subset (fun stmt hstmt => (hB stmt).mpr (.inl hstmt)))
        · apply imported_subset
          intro stmt hstmt
          exact (hB stmt).mpr (.inr ⟨line, (hadded line).mpr ⟨hin, hpresent⟩, stmts, hstmts, hstmt⟩)

/-- Lines with one name imported under another, beside the plain ones. -/
def readAliased (cs : List Char) : Option (List Ast.Stmt) :=
  match tokens [] cs with
  | ["from", module, "import", name, "as", asname] =>
    (readModule module).map (fun found => [.importFrom found.1 found.2 [⟨name, some asname⟩]])
  | _ => readLine cs

/-- One import goes below the other. -/
theorem merge_sound_iff_below : ∃ result, Sound (lineParser readAliased) "from fastapi import Depends\n"
    ["from core.database import get_db"] result := by
  have hparse : lineParser readAliased "from fastapi import Depends\n" =
      some [⟨.importFrom 0 (some "fastapi") [⟨"Depends", none⟩], 1⟩] := by decide +kernel
  have hline : body (lineParser readAliased) "from core.database import get_db" =
      some [.importFrom 0 (some "core.database") [⟨"get_db", none⟩]] := by decide +kernel
  have himports : ∀ line ∈ ["from core.database import get_db"], body (lineParser readAliased) line ≠ none ∧ Unpadded line := by
    intro line hin
    rw [List.mem_singleton.mp hin]
    exact ⟨by simp [hline], by unfold Unpadded; decide +kernel⟩
  refine (merge_sound_iff (lineParser_lawful (by decide +kernel)) (by decide +kernel) _ _ hparse (by decide +kernel) _ himports ?_).mpr ?_
  · exact fun _ => ⟨by decide +kernel, by decide +kernel⟩
  · intro line hin ⟨stmts, old, hstmts, hold, hsub⟩
    rw [List.mem_singleton.mp hin, hline] at hstmts
    rw [body_eq hparse] at hold
    obtain rfl := Option.some.inj hstmts
    obtain rfl := Option.some.inj hold
    exact absurd hsub (by decide)

/-- A name that is there under another name is not bound. -/
theorem aliased_not_bound : ¬ ∃ result, Sound (lineParser readAliased) "from shop.models import Item as Model\n"
    ["from shop.models import Item"] result := by
  intro ⟨result, h⟩
  have hmerged : mergeImports (lineParser readAliased) "from shop.models import Item as Model\n" ["from shop.models import Item"] =
      .ok "from shop.models import Item as Model\n" := by decide +kernel
  have hresult := h.merged
  rw [hmerged] at hresult
  obtain rfl := Except.ok.inj hresult
  have hbody : body (lineParser readAliased) "from shop.models import Item as Model\n" =
      some [.importFrom 0 (some "shop.models") [⟨"Item", some "Model"⟩]] := by decide +kernel
  have hline : Binds (lineParser readAliased) "from shop.models import Item" (.name "Item") :=
    ⟨[.importFrom 0 (some "shop.models") [⟨"Item", none⟩]], by decide +kernel, _, List.mem_singleton_self _, List.mem_singleton_self _⟩
  have hbinds := h.binds _ (List.mem_singleton_self _) _ hline
  rw [binds_of_mem hbody] at hbinds
  simp [bindings, Alias.bound] at hbinds

end FastiKit.Scaffold.MergeImports
