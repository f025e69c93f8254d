import FastiKit.Scaffold.CreateAll

/- The files that several calls write to, each by itself: when an editor leaves a text as
   it is, that it does so after it has written it, and that what the other calls write to
   the file does not change that. -/
namespace FastiKit.Scaffold
open Ast

/-- A word of ASCII letters, digits and underscores. -/
def isWord (s : String) : Bool := s ≠ "" && s.toList.all (fun c => c.isAlphanum || c = '_')

/-- A word in which newlines may stand. -/
def isWritten (s : String) : Bool := s ≠ "" && s.toList.all (fun c => c.isAlphanum || c = '_' || c = '\n')

/-! The `__init__.py` of a layer. -/

section Init
variable {parse : Parser} {printable : Char → Bool}

/-- A line that imports from what is no module, or what are no names, is not parsed. -/
structure Rejects (grammar : Grammar parse printable) : Prop where
  module : ∀ {lines stmts module names rest}, bodyOf parse lines = some stmts → isWritten module = true →
    ¬ grammar.Dotted module ∨ '\n' ∈ module.toList →
      body parse (Lines.unlines (lines ++ fromLine module names :: rest)) = none
  names : ∀ {lines stmts module names rest}, bodyOf parse lines = some stmts → grammar.Path module → names ≠ [] →
    (∀ name ∈ names, grammar.Word name ∨ name = "*" ∨ isWord name = true) →
      ¬ (grammar.Dotted module ∧ (names = ["*"] ∨ ∀ name ∈ names, grammar.Name name)) →
        body parse (Lines.unlines (lines ++ fromLine module names :: rest)) = none

/-- What a generator gives: a module, and the words it exports if that is one. -/
structure Given (module : String) (symbols : List String) : Prop where
  written : isWritten module = true
  some_ : symbols ≠ []
  words : '\n' ∉ module.toList → ∀ symbol ∈ symbols, isWord symbol = true

variable (parse printable) in
/-- The text is not parsed, or is as `update_init` writes it, with the symbols. -/
def InitSettled (module : String) (symbols : List String) (text : String) : Prop :=
  body parse text = none ∨ ∃ found, text = initText printable found ∧ body parse text = some (initStmts found) ∧
    HasSymbols found module symbols

variable {grammar : Grammar parse printable} {entries : List (String × List String)} {module module' text text' : String}
  {symbols symbols' : List String} {found : Imports × List String} {stmts : List Ast.Stmt}

/-- Lines of imports are read as they are written, or not at all. -/
theorem good_or_rejected (lawful : Lawful parse) (rejects : Rejects grammar)
    (h : ∀ entry ∈ entries, entry.2 ≠ [] ∧
      (isWritten entry.1 = true ∧ (¬ grammar.Dotted entry.1 ∨ '\n' ∈ entry.1.toList) ∨
        grammar.Path entry.1 ∧ ∀ name ∈ entry.2, grammar.Word name ∨ name = "*" ∨ isWord name = true))
    {lines rest : List String} (hlines : bodyOf parse lines = some stmts) :
    (∀ entry ∈ entries, grammar.Good entry) ∨
      body parse (Lines.unlines (lines ++ entries.map (fun entry => fromLine entry.1 entry.2) ++ rest)) = none := by
  induction entries generalizing lines stmts with
  | nil => exact .inl nofun
  | cons entry more ih =>
    obtain ⟨hne, hentry⟩ := h entry List.mem_cons_self
    rw [List.map_cons, List.append_assoc, List.cons_append]
    cases hentry with
    | inl hbad => exact .inr (rejects.module hlines hbad.1 hbad.2)
    | inr hwords =>
      by_cases hgood : grammar.Dotted entry.1 ∧ (entry.2 = ["*"] ∨ ∀ name ∈ entry.2, grammar.Name name)
      · have hentry : grammar.Good entry := ⟨hgood.1, hgood.2.imp_right (fun hnames => ⟨hne, hnames⟩)⟩
        have hmore := ih (fun entry hin => h entry (List.mem_cons_of_mem _ hin))
          (bodyOf_append lawful hlines (bodyOf_singleton lawful (grammar.fromLine hentry.1 hentry.2)))
        refine hmore.imp (fun hgoods => ?_) (fun hnone => by simpa using hnone)
        intro other hin
        cases List.mem_cons.mp hin with
        | inl heq => exact heq ▸ hentry
        | inr hin => exact hgoods other hin
      · exact .inr (rejects.names hlines hwords.1 hne hwords.2 hgood)

/-- What `update_init` writes is read back, or not at all. -/
theorem body_initText_or (lawful : Lawful parse) (rejects : Rejects grammar)
    {existing : Option String} (hold : existingStmts parse existing = some stmts) (hgiven : Given module symbols) :
    body parse (initText printable (mergeSymbols module symbols (moduleNames stmts))) =
        some (initStmts (mergeSymbols module symbols (moduleNames stmts))) ∨
      body parse (initText printable (mergeSymbols module symbols (moduleNames stmts))) = none := by
  have hentries : ∀ entry ∈ (mergeSymbols module symbols (moduleNames stmts)).1.entries.filter (fun entry => entry.2 ≠ []),
      entry.2 ≠ [] ∧ (isWritten entry.1 = true ∧ (¬ grammar.Dotted entry.1 ∨ '\n' ∈ entry.1.toList) ∨
        grammar.Path entry.1 ∧ ∀ name ∈ entry.2, grammar.Word name ∨ name = "*" ∨ isWord name = true) := by
    intro entry hin
    obtain ⟨hin, hne⟩ := List.mem_filter.mp hin
    have hne : entry.2 ≠ [] := by simpa using hne
    refine ⟨hne, ?_⟩
    have hget := Dict.get_of_mem [] hin
    rw [get_mergeSymbols] at hget
    by_cases hm : entry.1 = module
    · by_cases hbad : ¬ grammar.Dotted module ∨ '\n' ∈ module.toList
      · exact .inl (hm ▸ ⟨hgiven.written, hbad⟩)
      · rw [not_or, not_not] at hbad
        refine .inr ⟨hm ▸ grammar.path hbad.1, fun name hname => ?_⟩
        rw [← hget, if_pos hm, mem_addAll] at hname
        cases hname with
        | inl hname => exact (read_namesFrom grammar hold hname).2.imp_right .inl
        | inr hname => exact .inr (.inr (hgiven.words hbad.2 name hname))
    · rw [if_neg hm] at hget
      obtain ⟨first, hfirst⟩ := List.exists_mem_of_ne_nil _ hne
      refine .inr ⟨(read_namesFrom grammar hold (hget ▸ hfirst)).1, fun name hname => ?_⟩
      exact (read_namesFrom grammar hold (hget ▸ hname)).2.imp_right .inl
  by_cases hlines : importLines (mergeSymbols module symbols (moduleNames stmts)).1 = []
  · refine .inl (body_initText lawful grammar (fun entry hin hne => ?_))
    rw [importLines, List.map_eq_nil_iff] at hlines
    have hnone : entry ∉ (mergeSymbols module symbols (moduleNames stmts)).1.entries.filter (fun entry => entry.2 ≠ []) := by
      rw [hlines]
      exact List.not_mem_nil
    exact absurd (List.mem_filter.mpr ⟨hin, by simpa using hne⟩) hnone
  · rw [initText_eq, initLines, if_neg hlines]
    refine (good_or_rejected lawful rejects hentries bodyOf_nil).imp_left (fun hgood => ?_)
    have hbody : body parse (initText printable (mergeSymbols module symbols (moduleNames stmts))) =
        some (initStmts (mergeSymbols module symbols (moduleNames stmts))) :=
      body_initText lawful grammar (fun entry hin hne => hgood entry (List.mem_filter.mpr ⟨hin, by simpa using hne⟩))
    rwa [initText_eq, initLines, if_neg hlines] at hbody

/-- After `update_init` the text is settled. -/
theorem initSettled_of_updateInit (lawful : Lawful parse) (rejects : Rejects grammar) {existing : Option String}
    (hgiven : Given module symbols) (h : updateInit parse printable existing module symbols = .ok text) :
    InitSettled parse printable module symbols text := by
  unfold updateInit at h
  split at h
  · cases h
  · next stmts hold =>
    obtain rfl := Except.ok.inj h
    cases body_initText_or lawful rejects hold hgiven with
    | inl hbody => exact .inr ⟨_, rfl, hbody, hasSymbols_mergeSymbols module symbols _⟩
    | inr hnone => exact .inl hnone

/-- A settled text is not read, or written as it is. -/
theorem InitSettled.again (h : InitSettled parse printable module symbols text) :
    updateInit parse printable (some text) module symbols = .error .syntaxError ∨
      updateInit parse printable (some text) module symbols = .ok text := by
  cases h with
  | inl hnone => exact .inl (by rw [updateInit, existingStmts, hnone])
  | inr hfound =>
    obtain ⟨found, htext, hbody, hhas⟩ := hfound
    refine .inr ?_
    rw [updateInit, existingStmts, hbody]
    simp only [initText_again hhas, htext]

/-- What is read has the names. -/
theorem HasSymbols.read (h : HasSymbols found module symbols) : HasSymbols (moduleNames (initStmts found)) module symbols := by
  obtain ⟨hentries, hnames⟩ := moduleNames_initStmts found
  intro symbol hin
  obtain ⟨himported, hexported⟩ := h symbol hin
  refine ⟨?_, by rwa [hnames]⟩
  have hmem := Dict.mem_of_get (List.ne_nil_of_mem himported)
  have hread : (module, found.1.get module []) ∈ (moduleNames (initStmts found)).1.entries := by
    rw [hentries]
    exact List.mem_filter.mpr ⟨hmem, by simpa using List.ne_nil_of_mem himported⟩
  rwa [Dict.get_of_mem [] hread]

/-- What is there stays there. -/
theorem HasSymbols.merge (h : HasSymbols found module symbols) (module' : String) (symbols' : List String) :
    HasSymbols (mergeSymbols module' symbols' found) module symbols := by
  intro symbol hin
  obtain ⟨himported, hexported⟩ := h symbol hin
  rw [mergeSymbols, Dict.get_alter]
  refine ⟨?_, mem_addAll.mpr (.inl hexported)⟩
  split
  · next hm => exact mem_addAll.mpr (.inl (hm ▸ himported))
  · exact himported

/-- Another module does not change that. -/
theorem InitSettled.keep (lawful : Lawful parse) (rejects : Rejects grammar) (h : InitSettled parse printable module symbols text)
    (hgiven : Given module' symbols') (hwritten : updateInit parse printable (some text) module' symbols' = .ok text') :
    InitSettled parse printable module symbols text' := by
  unfold updateInit existingStmts at hwritten
  cases h with
  | inl hnone =>
    simp only [hnone] at hwritten
    cases hwritten
  | inr hfound =>
    obtain ⟨found, -, hbody, hhas⟩ := hfound
    simp only [hbody] at hwritten
    obtain rfl := Except.ok.inj hwritten
    have hold : existingStmts parse (some text) = some (initStmts found) := hbody
    cases body_initText_or lawful rejects hold hgiven with
    | inl hbody' => exact .inr ⟨_, rfl, hbody', hhas.read.merge module' symbols'⟩
    | inr hnone => exact .inl hnone

end Init

/-! `dependencies.py`. -/

section Dependencies
variable {parse : Parser} {content merged snake : String} {imports : List String}

/-- What is in a line of the module is in it after a merge. -/
theorem infix_mergeImports {s : List Char} (hplain : Lines.Plain s) (hne : s ≠ []) (hin : s <:+: content.toList)
    (h : MergeImports.mergeImports parse content imports = .ok merged) : s <:+: merged.toList := by
  unfold MergeImports.mergeImports at h
  split at h
  · cases h
  · next nodes hparse =>
    split at h
    · cases h
    · obtain rfl := Except.ok.inj h
      exact hin
    · next added hadded =>
      obtain rfl := Except.ok.inj h
      obtain ⟨a, b, hcontent⟩ := hin
      obtain ⟨line, hline, hinfix⟩ := Lines.exists_line hplain hne b a []
      have hmem : String.ofList line ∈ Lines.splitlines content := by
        rw [Lines.splitlines, ← hcontent, List.append_assoc]
        exact List.mem_map_of_mem hline
      rw [← List.take_append_drop (MergeImports.insertAt nodes) (Lines.splitlines content), List.mem_append] at hmem
      rw [String.toList_append]
      refine (Lines.infix_strip hplain hne ?_).trans (List.prefix_append _ _).isInfix
      rw [← String.toList_ofList (l := line)] at hinfix
      apply hinfix.trans
      apply Lines.infix_intercalate
      simp only [List.mem_append]
      exact hmem.imp_left .inl

/-- The factory of a name that is one line. -/
theorem hasFactory_keep (hsnake : Lines.Plain snake.toList) (h : CreateAll.hasFactory snake content = true)
    (hmerge : MergeImports.mergeImports parse content imports = .ok merged) (block : String) :
    CreateAll.hasFactory snake (Lines.rstrip merged ++ "\n\n\n" ++ block) = true := by
  have hplain : Lines.Plain ("def get_" ++ snake ++ "_service(").toList := by
    rw [String.toList_append, String.toList_append]
    exact Lines.Plain.append (Lines.Plain.append (plain_of_ascii (by decide)) hsnake) (plain_of_ascii (by decide))
  have hne : ("def get_" ++ snake ++ "_service(").toList ≠ [] := by simp
  have hmerged := infix_mergeImports hplain hne (of_decide_eq_true h) hmerge
  have hchars : (Lines.rstrip merged ++ "\n\n\n" ++ block).toList = (Lines.rstrip merged).toList ++ ("\n\n\n" ++ block).toList := by
    simp [String.toList_append]
  apply decide_eq_true
  rw [hchars]
  exact (Lines.infix_rstrip hplain hne hmerged).trans (List.prefix_append _ _).isInfix

/-- The factory is in the block. -/
theorem hasFactory_renderBlock (text snake pascal : String) :
    CreateAll.hasFactory snake (text ++ CreateAll.renderBlock snake pascal) = true := by
  obtain ⟨lines, hlines, hmem⟩ : ∃ lines, CreateAll.renderBlock snake pascal = "\n".intercalate lines ++ "\n" ∧
      "def get_" ++ snake ++ "_service(" ∈ lines :=
    ⟨_, rfl, List.mem_cons_of_mem _ (List.mem_cons_of_mem _ (List.mem_cons_of_mem _ (List.mem_cons_of_mem _ List.mem_cons_self)))⟩
  have hline := Lines.infix_intercalate hmem
  have hchars : (text ++ CreateAll.renderBlock snake pascal).toList = text.toList ++ ("\n".intercalate lines).toList ++ ['\n'] := by
    rw [hlines, ← String.append_assoc, String.toList_append, String.toList_append]
    rfl
  apply decide_eq_true
  rw [hchars]
  exact (hline.trans (List.suffix_append _ _).isInfix).trans (List.prefix_append _ _).isInfix

/-- The imports that are added are among those that are asked for, which are all parsed. -/
theorem missing_ok {present : List (Option String × String)} {added : List String}
    (h : MergeImports.missing parse present imports = some added) :
    (∀ line ∈ added, line ∈ imports) ∧ ∀ line ∈ imports, body parse line ≠ none := by
  induction imports generalizing added with
  | nil =>
    obtain rfl := Option.some.inj h
    exact ⟨nofun, nofun⟩
  | cons line rest ih =>
    unfold MergeImports.missing at h
    split at h
    · next stmts others hline hothers =>
      obtain ⟨hadded, hparsed⟩ := ih hothers
      have hsome := Option.some.inj h
      refine ⟨fun other hin => ?_, fun other hin => ?_⟩
      · rw [← hsome] at hin
        split at hin
        · exact List.mem_cons_of_mem _ (hadded other hin)
        · cases List.mem_cons.mp hin with
          | inl heq => exact heq ▸ List.mem_cons_self
          | inr hin => exact List.mem_cons_of_mem _ (hadded other hin)
      · cases List.mem_cons.mp hin with
        | inl heq =>
          rw [heq, hline]
          exact Option.some_ne_none _
        | inr hin => exact hparsed other hin
    · cases h

/-- All the imports of a merge are parsed. -/
theorem parsed_of_merge (h : MergeImports.mergeImports parse content imports = .ok merged) :
    ∀ line ∈ imports, body parse line ≠ none := by
  unfold MergeImports.mergeImports at h
  split at h
  · cases h
  · split at h
    · cases h
    · next hmissing => exact (missing_ok hmissing).2
    · next added _ hmissing => exact (missing_ok hmissing).2

/-- A plain line that begins with something else than an underscore. -/
def Begins (line : String) : Prop := Lines.Plain line.toList ∧ line.toList.head?.any (· ≠ '_') = true

theorem Begins.append {a b : String} (ha : Begins a) (hb : Lines.Plain b.toList) : Begins (a ++ b) := by
  unfold Begins
  rw [String.toList_append]
  refine ⟨ha.1.append hb, ?_⟩
  cases hchars : a.toList with
  | nil =>
    have hhead := ha.2
    rw [hchars] at hhead
    cases hhead
  | cons c rest => simpa [hchars] using ha.2

theorem Begins.not_starting {s : List Char} {line : String} (h : Begins line) (hs : s.head? = some '_') : ¬ s <+: line.toList := by
  intro ⟨rest, heq⟩
  have hhead := h.2
  rw [← heq, List.head?_append, hs, Option.some_or] at hhead
  exact absurd hhead (by decide)

theorem begins_requiredImports {domain snake pascal : String} (hdomain : Lines.Plain domain.toList) (hsnake : Lines.Plain snake.toList)
    (hpascal : Lines.Plain pascal.toList) : ∀ line ∈ CreateAll.requiredImports domain snake pascal, Begins line := by
  have htext : ∀ s : String, s.toList.all Repr.isAscii = true → Lines.Plain s.toList := fun s h => plain_of_ascii h
  have hfirst : ∀ s : String, s.toList.all Repr.isAscii = true → s.toList.head?.any (· ≠ '_') = true → Begins s :=
    fun s hs hhead => ⟨plain_of_ascii hs, hhead⟩
  intro line hin
  simp only [CreateAll.requiredImports, List.mem_cons, List.not_mem_nil, or_false] at hin
  obtain rfl | rfl | rfl | rfl | rfl := hin
  · exact hfirst _ (by decide) (by decide)
  · exact hfirst _ (by decide) (by decide)
  · exact hfirst _ (by decide) (by decide)
  · exact ((((((hfirst "from " (by decide) (by decide)).append hdomain).append (htext _ (by decide))).append hsnake).append
      (htext _ (by decide))).append hpascal).append (htext _ (by decide))
  · exact ((((((hfirst "from " (by decide) (by decide)).append hdomain).append (htext _ (by decide))).append hsnake).append
      (htext _ (by decide))).append hpascal).append (htext _ (by decide))

/-- A merge of lines that start with something else adds no such line. -/
theorem starts_mergeImports {s : List Char} (hs : s.head? = some '_') (himports : ∀ line ∈ imports, Begins line)
    (h : MergeImports.mergeImports parse content imports = .ok merged) (hstarts : Lines.Starts s merged) : Lines.Starts s content := by
  have hne : s ≠ [] := by
    intro hnil
    rw [hnil] at hs
    cases hs
  unfold MergeImports.mergeImports at h
  split at h
  · cases h
  · next nodes hparse =>
    split at h
    · cases h
    · obtain rfl := Except.ok.inj h
      exact hstarts
    · next added _ hmissing =>
      obtain rfl := Except.ok.inj h
      have hadded := (missing_ok hmissing).1
      have hjoined : Lines.Starts s ("\n".intercalate ((Lines.splitlines content).take (MergeImports.insertAt nodes) ++
          (MergeImports.spacing nodes ++ added) ++ (Lines.splitlines content).drop (MergeImports.insertAt nodes))) := by
        apply Lines.starts_strip
        have happ := Lines.starts_append (b := "") hne (by rwa [String.append_empty])
        refine happ.resolve_right (fun hempty => ?_)
        obtain ⟨line, hline, -⟩ := hempty
        cases hline
      have hplain : ∀ line ∈ (Lines.splitlines content).take (MergeImports.insertAt nodes) ++
          (MergeImports.spacing nodes ++ added) ++ (Lines.splitlines content).drop (MergeImports.insertAt nodes),
            Lines.Plain line.toList := by
        intro line hin
        simp only [List.mem_append] at hin
        obtain (hin | hin | hin) | hin := hin
        · exact Lines.plain_of_mem_splitlines (List.mem_of_mem_take hin)
        · rw [MergeImports.blank_spacing nodes line hin]
          exact nofun
        · exact (himports line (hadded line hin)).1
        · exact Lines.plain_of_mem_splitlines (List.mem_of_mem_drop hin)
      obtain ⟨line, hline, hprefix⟩ := Lines.starts_intercalate hplain hjoined
      simp only [List.mem_append] at hline
      obtain (hline | hline | hline) | hline := hline
      · exact ⟨line, List.mem_of_mem_take hline, hprefix⟩
      · rw [MergeImports.blank_spacing nodes line hline] at hprefix
        exact absurd (List.prefix_nil.mp hprefix) hne
      · exact absurd hprefix ((himports line (hadded line hline)).not_starting hs)
      · exact ⟨line, List.mem_of_mem_drop hline, hprefix⟩

theorem starts_renderBlock {s : List Char} {pascal : String} (hs : s.head? = some '_') (hsnake : Lines.Plain snake.toList)
    (hpascal : Lines.Plain pascal.toList) : ¬ Lines.Starts s (CreateAll.renderBlock snake pascal) := by
  have htext : ∀ s : String, s.toList.all Repr.isAscii = true → Lines.Plain s.toList := fun s h => plain_of_ascii h
  have hfirst : ∀ s : String, s.toList.all Repr.isAscii = true → s.toList.head?.any (· ≠ '_') = true → Begins s :=
    fun s hs hhead => ⟨plain_of_ascii hs, hhead⟩
  obtain ⟨lines, hblock, hsome, hlines⟩ : ∃ lines, CreateAll.renderBlock snake pascal = Lines.unlines lines ∧ lines ≠ [] ∧
      ∀ line ∈ lines, line = "" ∨ Begins line := by
    refine ⟨_, rfl, List.cons_ne_nil _ _, ?_⟩
    intro line hin
    simp only [List.mem_cons, List.not_mem_nil, or_false] at hin
    obtain rfl | rfl | rfl | rfl | rfl | rfl | rfl | rfl := hin
    · exact .inr (((((hfirst "def get_" (by decide) (by decide)).append hsnake).append (htext _ (by decide))).append hpascal).append
        (htext _ (by decide)))
    · exact .inr (((hfirst "    return " (by decide) (by decide)).append hpascal).append (htext _ (by decide)))
    · exact .inl rfl
    · exact .inl rfl
    · exact .inr (((hfirst "def get_" (by decide) (by decide)).append hsnake).append (htext _ (by decide)))
    · exact .inr (((((hfirst "    repo: " (by decide) (by decide)).append hpascal).append (htext _ (by decide))).append hsnake).append
        (htext _ (by decide)))
    · exact .inr (((hfirst ") -> " (by decide) (by decide)).append hpascal).append (htext _ (by decide)))
    · exact .inr (((hfirst "    return " (by decide) (by decide)).append hpascal).append (htext _ (by decide)))
  have hplain : ∀ line ∈ lines, Lines.Plain line.toList := by
    intro line hin
    obtain rfl | hbegins := hlines line hin
    · exact nofun
    · exact hbegins.1
  intro ⟨line, hline, hprefix⟩
  rw [hblock, Lines.splitlines_unlines hsome hplain] at hline
  obtain rfl | hbegins := hlines line hline
  · rw [List.prefix_nil.mp hprefix] at hs
    cases hs
  · exact hbegins.not_starting hs hprefix

/-- No line of a factory starts so. -/
theorem starts_dependencies {s : List Char} {domain pascal : String} (hs : s.head? = some '_') (hdomain : Lines.Plain domain.toList)
    (hsnake : Lines.Plain snake.toList) (hpascal : Lines.Plain pascal.toList)
    (h : MergeImports.mergeImports parse content (CreateAll.requiredImports domain snake pascal) = .ok merged)
    (hstarts : Lines.Starts s (Lines.rstrip merged ++ "\n\n\n" ++ CreateAll.renderBlock snake pascal)) : Lines.Starts s content := by
  have hne : s ≠ [] := by
    intro hnil
    rw [hnil] at hs
    cases hs
  have hempty : ¬ Lines.Starts s "" := by
    intro ⟨line, hline, _⟩
    cases hline
  have hsplit : Lines.rstrip merged ++ "\n\n\n" ++ CreateAll.renderBlock snake pascal =
      Lines.rstrip merged ++ "\n" ++ ("" ++ "\n" ++ ("" ++ "\n" ++ CreateAll.renderBlock snake pascal)) := by
    rw [← String.toList_inj]
    simp [String.toList_append]
  rw [hsplit] at hstarts
  obtain hmerged | hstarts := Lines.starts_append hne hstarts
  · exact starts_mergeImports hs (begins_requiredImports hdomain hsnake hpascal) h (Lines.starts_rstrip hmerged)
  · obtain hnone | hstarts := Lines.starts_append hne hstarts
    · exact absurd hnone hempty
    · obtain hnone | hstarts := Lines.starts_append hne hstarts
      · exact absurd hnone hempty
      · exact absurd hstarts (starts_renderBlock hs hsnake hpascal)

end Dependencies

/-! `core/models.py`. -/

section Manifest
variable {parse : Parser} {domain modelClass line text : String}

variable (parse) in
/-- The module is not parsed, or imports the model. -/
def Registered (domain modelClass text : String) : Prop :=
  body parse text = none ∨ ∃ stmts, body parse text = some stmts ∧ stmts.any (CreateAll.importsModel domain modelClass) = true

variable (parse) in
/-- Last newlines say nothing. With a backslash before it, the last of two would end the
statement. -/
def Ends : Prop := ∀ {text A}, '\\' ∉ text.toList → body parse (text ++ "\n") = some A → body parse text = some A

theorem mem_rstrip {c : Char} (h : c ∈ (Lines.rstrip text).toList) : c ∈ text.toList := by
  rw [Lines.rstrip, String.toList_ofList] at h
  exact (List.rdropWhile_prefix _ _).subset h

theorem body_rstrip (ends : Ends parse) {A : List Ast.Stmt} (hplain : '\\' ∉ text.toList) (h : body parse text = some A) :
    body parse (Lines.rstrip text) = some A := by
  have hnewlines : ∀ (n : Nat) (t : String), '\\' ∉ t.toList →
      body parse (t ++ String.ofList (List.replicate n '\n')) = some A → body parse t = some A := by
    intro n
    induction n with
    | zero =>
      intro t _ ht
      simpa using ht
    | succ n ih =>
      intro t hnot ht
      have hmore : '\\' ∉ (t ++ String.ofList (List.replicate n '\n')).toList := by
        simp [String.toList_append, hnot]
      have hsplit : t ++ String.ofList (List.replicate (n + 1) '\n') = t ++ String.ofList (List.replicate n '\n') ++ "\n" := by
        rw [← String.toList_inj]
        simp [List.replicate_succ']
      rw [hsplit] at ht
      exact ih t hnot (ends hmore ht)
  have htail : ∀ c ∈ text.toList.rtakeWhile (fun c => c = '\n'), c = '\n' := by
    intro c hc
    simpa using List.mem_rtakeWhile_imp hc
  apply hnewlines (text.toList.rtakeWhile (fun c => c = '\n')).length _ (fun hin => hplain (mem_rstrip hin))
  have htext : Lines.rstrip text ++ String.ofList (List.replicate (text.toList.rtakeWhile (fun c => c = '\n')).length '\n') = text := by
    rw [← String.toList_inj, String.toList_append, Lines.rstrip, String.toList_ofList, String.toList_ofList,
      ← List.eq_replicate_of_mem htail, List.rdropWhile_append_rtakeWhile]
  rw [htext, h]

/-- A line that is added to the module is read after it. -/
theorem body_added_line (lawful : Lawful parse) (ends : Ends parse) {A B : List Ast.Stmt} (hplain : '\\' ∉ text.toList)
    (htext : body parse text = some A) (hline : body parse line = some B) :
    body parse (Lines.rstrip text ++ "\n" ++ line ++ "\n") = some (A ++ B) := by
  have hafter := lawful.append (lawful.newline (body_rstrip ends hplain htext)) (lawful.newline hline)
  rwa [← String.append_assoc] at hafter

end Manifest

/-! `core/api_versions.py`. -/

section Router
open Lines
variable {domain routerVar domain' routerVar' text text' : String} {lines : List String}

/-- Nothing is wired where there is no place for it, or when it is there. -/
theorem wireLines_eq_none_iff : wireLines domain routerVar lines = none ↔
    (importLine domain routerVar ∈ lines ∧ includeLine routerVar ∈ lines) ∨ indices isImport lines = [] ∨
      lines.any isCreation = false := by
  unfold wireLines
  split
  · next h => simp [h]
  · next h =>
    simp only [h, false_or]
    split
    · next hnone => simp [List.getLast?_eq_none_iff.mp hnone]
    · next last hlast =>
      have hne : indices isImport lines ≠ [] := by
        intro hnil
        rw [hnil] at hlast
        cases hlast
      split
      · next hcreation => simp [hne, hcreation]
      · next hcreation => simp [hcreation]

theorem lt_of_indices {p : String → Bool} {i : Nat} (h : (indices p lines).getLast? = some i) : i < lines.length := by
  obtain ⟨entry, hentry, rfl⟩ := List.mem_map.mp (List.mem_of_getLast? h)
  have hget := List.mem_zipIdx_iff_getElem?.mp (List.mem_of_mem_filter hentry)
  exact (List.getElem?_eq_some_iff.mp hget).1

theorem includeAt_le (lines : List String) : includeAt lines ≤ lines.length := by
  unfold includeAt
  split
  · next i hi => exact lt_of_indices hi
  · exact Nat.le_refl _

/-- A line is inserted if it is not there. -/
theorem mem_inserted {i : Nat} (hi : i ≤ lines.length) (line : String) {inserted : List String}
    (h : inserted = if line ∈ lines then lines else lines.insertIdx i line) :
    line ∈ inserted ∧ (∀ other ∈ lines, other ∈ inserted) ∧ lines.length ≤ inserted.length := by
  rw [h]
  split
  · next hin => exact ⟨hin, fun _ h => h, Nat.le_refl _⟩
  · refine ⟨(List.mem_insertIdx hi).mpr (.inl rfl), fun other hother => (List.mem_insertIdx hi).mpr (.inr hother), ?_⟩
    rw [List.length_insertIdx_of_le_length hi]
    exact Nat.le_succ _

/-- What is written has the two lines and those that were there. -/
theorem wireLines_some {lines' : List String} (h : wireLines domain routerVar lines = some lines') :
    importLine domain routerVar ∈ lines' ∧ includeLine routerVar ∈ lines' ∧ ∀ line ∈ lines, line ∈ lines' := by
  unfold wireLines at h
  split at h
  · cases h
  · split at h
    · cases h
    · next last hlast =>
      split at h
      · have himported := (Option.some.inj h).symm
        obtain ⟨hinclude, hold, hlength⟩ := mem_inserted (includeAt_le lines) (includeLine routerVar) rfl
        have hlt := lt_of_indices hlast
        obtain ⟨himport, hold', -⟩ := mem_inserted (by omega) (importLine domain routerVar) himported
        exact ⟨himport, hold' _ hinclude, fun line hin => hold' line (hold line hin)⟩
      · cases h

theorem plain_importLine (hdomain : Plain domain.toList) (hrouter : Plain routerVar.toList) :
    Plain (importLine domain routerVar).toList := by
  unfold importLine
  rw [String.toList_append, String.toList_append, String.toList_append]
  exact Plain.append (Plain.append (Plain.append (plain_of_ascii (by decide)) hdomain) (plain_of_ascii (by decide))) hrouter

theorem plain_includeLine (hrouter : Plain routerVar.toList) : Plain (includeLine routerVar).toList := by
  unfold includeLine
  rw [String.toList_append, String.toList_append]
  exact Plain.append (Plain.append (plain_of_ascii (by decide)) hrouter) (plain_of_ascii (by decide))

/-- What is written is read as the lines it was written from. -/
theorem registerRouter_some (hdomain : Plain domain.toList) (hrouter : Plain routerVar.toList)
    (h : registerRouter domain routerVar text = some text') : importLine domain routerVar ∈ splitlines text' ∧
      includeLine routerVar ∈ splitlines text' ∧ ∀ line ∈ splitlines text, line ∈ splitlines text' := by
  obtain ⟨lines', hwire, rfl⟩ := Option.map_eq_some_iff.mp h
  obtain ⟨himport, hinclude, hold⟩ := wireLines_some hwire
  have hread : ∀ line ∈ lines', Plain line.toList → line ∈ splitlines (unlines lines') := by
    intro line hin hplain
    obtain ⟨before, after, heq⟩ := List.append_of_mem hin
    rw [heq]
    exact mem_splitlines_unlines hplain before after
  refine ⟨hread _ himport (plain_importLine hdomain hrouter), hread _ hinclude (plain_includeLine hrouter), ?_⟩
  exact fun line hin => hread line (hold line hin) (plain_of_mem_splitlines hin)

/-- After `register_router` nothing is left to wire. -/
theorem registerRouter_settled (hdomain : Plain domain.toList) (hrouter : Plain routerVar.toList)
    (h : registerRouter domain routerVar text = some text') : registerRouter domain routerVar text' = none := by
  obtain ⟨himport, hinclude, -⟩ := registerRouter_some hdomain hrouter h
  rw [registerRouter, wireLines_eq_none_iff.mpr (.inl ⟨himport, hinclude⟩), Option.map_none]

/-- Another router does not change that. -/
theorem registerRouter_keep (hdomain : Plain domain'.toList) (hrouter : Plain routerVar'.toList)
    (h : registerRouter domain routerVar text = none) (hother : registerRouter domain' routerVar' text = some text') :
    registerRouter domain routerVar text' = none := by
  obtain ⟨-, -, hold⟩ := registerRouter_some hdomain hrouter hother
  rw [registerRouter, Option.map_eq_none_iff, wireLines_eq_none_iff] at h
  cases h with
  | inl hboth =>
    rw [registerRouter, wireLines_eq_none_iff.mpr (.inl ⟨hold _ hboth.1, hold _ hboth.2⟩), Option.map_none]
  | inr hplace =>
    rw [registerRouter, wireLines_eq_none_iff.mpr (.inr hplace)] at hother
    cases hother

end Router

/-! `pyproject.toml`. -/

namespace Pyproject
variable {domain domain' : String} {lines : List String} {t t' : Target} {i : Nat} {literal tail : List Char}

/-- The values in the line of a target. -/
def valuesOf (lines : List String) (t : Target) : List String :=
  match lines.findIdx? (eligible t.key t.mustContain) with
  | none => []
  | some i =>
    match lines[i]?.bind (readEntry t.key) with
    | none => []
    | some (literal, _) => listValues literal

/-- A line of the file is the target's. -/
def Found (lines : List String) (t : Target) : Prop := lines.findIdx? (eligible t.key t.mustContain) ≠ none

theorem bracket_readEntry {key line : String} (h : readEntry key line = some (literal, tail)) : ']' ∉ literal := by
  unfold readEntry at h
  simp only at h
  split at h
  · obtain ⟨rfl, -⟩ := Prod.mk.inj (Option.some.inj h)
    intro hin
    simpa using List.mem_takeWhile_imp hin
  · cases h

/-- What the edit of a line is made from. -/
theorem editOf_found (h : editOf domain lines t = some (i, literal, tail)) :
    lines.findIdx? (eligible t.key t.mustContain) = some i ∧ lines[i]?.bind (readEntry t.key) = some (literal, tail) ∧
      ']' ∉ literal := by
  obtain ⟨j, hfirst, hrest⟩ := Option.bind_eq_some_iff.mp h
  obtain ⟨⟨lit, rest⟩, hfound, hvalue⟩ := Option.bind_eq_some_iff.mp hrest
  split at hvalue
  · cases hvalue
  · obtain ⟨rfl, rfl, rfl⟩ : j = i ∧ lit = literal ∧ rest = tail := by simpa using hvalue
    obtain ⟨line, -, hread⟩ := Option.bind_eq_some_iff.mp hfound
    exact ⟨hfirst, hfound, bracket_readEntry hread⟩

theorem mentions_append {mustContain : Option String} {values : List String} (h : mentions mustContain values = true) (value : String) :
    mentions mustContain (values ++ [value]) = true := by
  cases mustContain with
  | none => rfl
  | some m =>
    rw [mentions, List.any_append, Bool.or_eq_true]
    exact .inl h

/-- The line that is written is found in the place of the old one, with the value. -/
theorem find_edited (hdomain : domain.toList.all isIdentifierChar = true) (h : editOf domain lines t = some (i, literal, tail)) :
    (lines.set i (editedLine domain t literal tail)).findIdx? (eligible t.key t.mustContain) = some i ∧
      (lines.set i (editedLine domain t literal tail))[i]?.bind (readEntry t.key) =
        some (render (listValues literal ++ [t.value domain]), tail) ∧
      listValues (render (listValues literal ++ [t.value domain])) = listValues literal ++ [t.value domain] := by
  obtain ⟨hfirst, hfound, hbracket⟩ := editOf_found h
  have hvalue := plainText_iff (plainText_value hdomain t)
  have hclean : ∀ v ∈ listValues literal ++ [t.value domain], '"' ∉ v.toList ∧ ']' ∉ v.toList := by
    intro v hv
    cases List.mem_append.mp hv with
    | inl hv => exact ⟨(mem_listValues hv).1, fun hin => hbracket ((mem_listValues hv).2 _ hin)⟩
    | inr hv => exact List.mem_singleton.mp hv ▸ ⟨hvalue.1, hvalue.2.1⟩
  have hvalues : listValues (render (listValues literal ++ [t.value domain])) = listValues literal ++ [t.value domain] :=
    listValues_render (fun v hv => (hclean v hv).1)
  have hread : readEntry t.key (editedLine domain t literal tail) =
      some (render (listValues literal ++ [t.value domain]), tail) := by
    apply readEntry_entryLine
    intro hin
    obtain hsign | ⟨v, hv, hc⟩ := mem_render hin
    · exact absurd hsign (by decide)
    · exact (hclean v hv).2 hc
  obtain ⟨hlt, heligible, hbefore⟩ := List.findIdx?_eq_some_iff_getElem.mp hfirst
  refine ⟨List.findIdx?_eq_some_iff_getElem.mpr ⟨by simpa using hlt, ?_, ?_⟩, ?_, hvalues⟩
  · rw [List.getElem_set_self, eligible, hread]
    simp only [hvalues]
    rw [List.getElem?_eq_getElem hlt, Option.bind_some] at hfound
    rw [eligible, hfound] at heligible
    exact mentions_append heligible _
  · intro j hj
    rw [List.getElem_set_ne (by omega)]
    exact hbefore j hj
  · rw [List.getElem?_set_self hlt, Option.bind_some, hread]

/-- After the edit the value is there, and so is what was. -/
theorem editOf_again (hdomain : domain.toList.all isIdentifierChar = true) (t : Target) :
    editOf domain (addToLines t.key (t.value domain) t.mustContain lines) t = none := by
  cases h : editOf domain lines t with
  | none => rw [editOf_none h, h]
  | some found =>
    obtain ⟨i, literal, tail⟩ := found
    obtain ⟨hfirst, hread, hvalues⟩ := find_edited hdomain h
    rw [(editOf_some h).2.2, editOf, hfirst, Option.bind_some, hread, Option.bind_some]
    simp only [hvalues]
    rw [if_pos (List.mem_append_right _ (List.mem_singleton_self _))]

/-- An edit for another domain leaves nothing to do where there was nothing. -/
theorem editOf_keep (hdomain : domain'.toList.all isIdentifierChar = true) (h : editOf domain lines t = none) (t' : Target) :
    editOf domain (addToLines t'.key (t'.value domain') t'.mustContain lines) t = none := by
  cases h' : editOf domain' lines t' with
  | none => rw [editOf_none h', h]
  | some found =>
    obtain ⟨i, literal, tail⟩ := found
    rw [(editOf_some h').2.2]
    by_cases heq : t = t'
    · subst heq
      obtain ⟨hfirst, hfound, -⟩ := editOf_found h'
      obtain ⟨hfirst', hread, hvalues⟩ := find_edited hdomain h'
      -- the value was there
      have hin : t.value domain ∈ listValues literal := by
        by_contra hnot
        rw [editOf, hfirst, Option.bind_some, hfound, Option.bind_some, if_neg hnot] at h
        cases h
      rw [editOf, hfirst', Option.bind_some, hread, Option.bind_some]
      simp only [hvalues]
      rw [if_pos (List.mem_append_left _ hin)]
    · rw [editedLine, editOf_set_ne heq (editOf_some h').1, h]

theorem editOf_editLines_keep (hdomain : domain'.toList.all isIdentifierChar = true) (h : editOf domain lines t = none) :
    editOf domain (editLines domain' lines) t = none := by
  unfold editLines
  induction targets generalizing lines with
  | nil => exact h
  | cons first rest ih => exact ih (editOf_keep hdomain h first)

/-- The edited lines have nothing left to edit. -/
theorem editOf_editLines (hdomain : domain.toList.all isIdentifierChar = true) (lines : List String) (t : Target) :
    editOf domain (editLines domain lines) t = none := by
  have hfold : ∀ (ts : List Target) (lines : List String), t ∈ ts ∨ editOf domain lines t = none →
      editOf domain (ts.foldl (fun lines t => addToLines t.key (t.value domain) t.mustContain lines) lines) t = none := by
    intro ts
    induction ts with
    | nil => exact fun lines h => h.resolve_left (List.not_mem_nil)
    | cons first rest ih =>
      intro lines h
      apply ih
      obtain hin | h := h
      · cases List.mem_cons.mp hin with
        | inl heq =>
          rw [← heq]
          exact .inr (editOf_again hdomain t)
        | inr hin => exact .inl hin
      · exact .inr (editOf_keep hdomain h first)
  exact hfold targets lines (.inl (by cases t <;> decide))

/-- Where nothing is left to edit the text is not changed. -/
theorem edit_of_editOf (hdomain : domain.toList.all isIdentifierChar = true) {content : String}
    (h : ∀ t, editOf domain (splitNewlines content) t = none) : edit domain content = content := by
  have hfold : ∀ ts : List Target, ts.foldl (fun lines t => addToLines t.key (t.value domain) t.mustContain lines)
      (splitNewlines content) = splitNewlines content := by
    intro ts
    induction ts with
    | nil => rfl
    | cons first rest ih => rw [List.foldl_cons, editOf_none (h first), ih]
  rw [edit_eq hdomain, editLines, hfold, joinNewlines_splitNewlines]

theorem splitNewlines_edit (hdomain : domain.toList.all isIdentifierChar = true) (content : String) :
    splitNewlines (edit domain content) = editLines domain (splitNewlines content) := by
  have hfold : ∀ (ts : List Target) (lines : List String), lines ≠ [] → (∀ line ∈ lines, '\n' ∉ line.toList) →
      ts.foldl (fun lines t => addToLines t.key (t.value domain) t.mustContain lines) lines ≠ [] ∧
        ∀ line ∈ ts.foldl (fun lines t => addToLines t.key (t.value domain) t.mustContain lines) lines, '\n' ∉ line.toList := by
    intro ts
    induction ts with
    | nil => exact fun lines hne hlines => ⟨hne, hlines⟩
    | cons first rest ih =>
      exact fun lines hne hlines => ih _ (addToLines_ne_nil first hne) (newline_addToLines hdomain first hlines)
  obtain ⟨hne, hlines⟩ := hfold targets (splitNewlines content) (splitNewlines_ne_nil content) (fun _ hin => mem_splitNewlines hin)
  rw [edit_eq hdomain]
  exact splitNewlines_joinNewlines hne hlines

/-- No list of the file is lost. -/
theorem found_editLines (hdomain : domain.toList.all isIdentifierChar = true) (h : Found lines t) :
    Found (editLines domain lines) t := by
  have hadd : ∀ (lines : List String) (t' : Target), Found lines t →
      Found (addToLines t'.key (t'.value domain) t'.mustContain lines) t := by
    intro lines t' h
    cases h' : editOf domain lines t' with
    | none => rwa [editOf_none h']
    | some found =>
      obtain ⟨i, literal, tail⟩ := found
      rw [(editOf_some h').2.2, Found]
      by_cases heq : t = t'
      · subst heq
        rw [(find_edited hdomain h').1]
        exact Option.some_ne_none _
      · rw [editedLine, findIdx?_set_ne heq (editOf_some h').1]
        exact h
  unfold editLines
  induction targets generalizing lines with
  | nil => exact h
  | cons first rest ih => exact ih (hadd lines first h)

/-- A list that is found and need not be edited has the value. -/
theorem mem_valuesOf (hfound : Found lines t) (h : editOf domain lines t = none) : t.value domain ∈ valuesOf lines t := by
  obtain ⟨i, hi⟩ := Option.ne_none_iff_exists'.mp hfound
  obtain ⟨hlt, heligible, -⟩ := List.findIdx?_eq_some_iff_getElem.mp hi
  unfold eligible at heligible
  split at heligible
  · cases heligible
  · next literal tail hread =>
    have hline : lines[i]?.bind (readEntry t.key) = some (literal, tail) := by
      rw [List.getElem?_eq_getElem hlt, Option.bind_some, hread]
    by_contra hnot
    simp only [valuesOf, hi, hline] at hnot
    rw [editOf, hi, Option.bind_some, hline, Option.bind_some, if_neg hnot] at h
    cases h

/-- The seven lists are in lines of the file, and with any domains added there they are
lists of what stands in these lines. -/
structure ListsRead (loads : String → Option Toml) (content : String) : Prop where
  found : ∀ t, Found (splitNewlines content) t
  read : ∀ domains : List String, (∀ domain ∈ domains, domain.toList.all isIdentifierChar = true) → ∃ data lists,
    loads (domains.foldl (fun content domain => edit domain content) content) = some data ∧ pyprojectLists data = some lists ∧
      ∀ entry ∈ targets.zip lists, ∀ value ∈ valuesOf
        (splitNewlines (domains.foldl (fun content domain => edit domain content) content)) entry.1, isIn value entry.2 = some true

theorem allIn_zip {value : Target → String} {ts : List Target} {lists : List Toml}
    (h : ∀ entry ∈ ts.zip lists, isIn (value entry.1) entry.2 = some true) : allIn ((ts.map value).zip lists) = some true := by
  induction ts generalizing lists with
  | nil => rfl
  | cons t rest ih =>
    cases lists with
    | nil => rfl
    | cons found more =>
      rw [List.map_cons, List.zip_cons_cons, allIn, h (t, found) List.mem_cons_self, Option.bind_some, if_pos rfl]
      exact ih (fun entry hin => h entry (List.mem_cons_of_mem _ hin))

theorem ListsRead.edit {loads : String → Option Toml} {content : String} (h : ListsRead loads content)
    (hdomain : domain.toList.all isIdentifierChar = true) : ListsRead loads (Pyproject.edit domain content) where
  found t := by
    rw [splitNewlines_edit hdomain]
    exact found_editLines hdomain (h.found t)
  read domains hdomains := by
    have hread := h.read (domain :: domains) (List.forall_mem_cons.mpr ⟨hdomain, hdomains⟩)
    rwa [List.foldl_cons] at hread

/-- Where the lists are read so, a domain is always added. -/
theorem registerPyproject_of_read {loads : String → Option Toml} {content : String} (hread : ListsRead loads content)
    (hdomain : domain.toList.all isIdentifierChar = true) : registerPyproject loads domain (some content) =
      some (if edit domain content = content then none else some (edit domain content)) := by
  have hedited := hread.edit hdomain
  obtain ⟨data, lists, hloads, hlists, hvalues⟩ := hedited.read [] nofun
  rw [List.foldl_nil] at hloads hvalues
  have hall : allIn ((targets.map (Target.value domain)).zip lists) = some true := by
    apply allIn_zip
    intro entry hentry
    apply hvalues entry hentry
    apply mem_valuesOf (hedited.found entry.1)
    rw [splitNewlines_edit hdomain]
    exact editOf_editLines hdomain _ entry.1
  unfold registerPyproject
  simp only [hloads, hlists, hall]

end Pyproject

end FastiKit.Scaffold
