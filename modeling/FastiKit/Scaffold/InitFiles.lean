import FastiKit.Language.Dict
import FastiKit.Language.LineParser
import FastiKit.Scaffold.Names

/- The `__init__.py` of a layer, which is read into two structures and written again from
   them.

   Correspondence (Python ↔ Lean):
     `_module_names`            ↔ `moduleNames`
     `update_init`              ↔ `updateInit`, on the text of the file if it exists

   What is proved: `update_init` loses a name exactly when the file binds or exports it in
   another way than those two structures hold, or imports what cannot be written in one
   line: `import *` beside other names of one module, or a keyword
   (`update_loses_nothing_iff`).

   Python's parser is a parameter, and so is which strings the statements of a module
   leave in its `__all__`; `Grammar` and `Exports` are what is used of them. -/
namespace FastiKit.Scaffold
open Ast

/-- `imports: dict[str, list[str]]` -/
abbrev Imports := Dict String (List String)

/-- What one statement adds to the imports by module and to the names in `__all__`. -/
def readInit (found : Imports × List String) : Ast.Stmt → Imports × List String
  | .importFrom 1 (some module) names => (found.1.alter module [] (· ++ names.map Alias.name), found.2)
  | .assign targets (some elements) => if "__all__" ∈ targets then (found.1, elements.filterMap id) else found
  | _ => found

def moduleNames (stmts : List Ast.Stmt) : Imports × List String := stmts.foldl readInit (Dict.empty, [])

/-- `if symbol not in names: names.append(symbol)` -/
def addNew (names : List String) (symbol : String) : List String := if symbol ∈ names then names else names ++ [symbol]

def addAll (symbols names : List String) : List String := symbols.foldl addNew names

def mergeSymbols (module : String) (symbols : List String) (found : Imports × List String) : Imports × List String :=
  (found.1.alter module [] (addAll symbols), addAll symbols found.2)

def fromLine (module : String) (names : List String) : String := "from ." ++ module ++ " import " ++ ", ".intercalate names

variable (parse : Parser) (printable : Char → Bool)

def allLine (names : List String) : String := "__all__ = [" ++ ", ".intercalate (names.map (Repr.repr printable)) ++ "]"

/-- A line for each module that names are imported from. -/
def importLines (imports : Imports) : List String :=
  (imports.entries.filter (fun entry => entry.2 ≠ [])).map (fun entry => fromLine entry.1 entry.2)

def initText (found : Imports × List String) : String :=
  "\n".intercalate (importLines found.1) ++ "\n" ++
    if found.2 = [] then "" else "\n" ++ allLine printable found.2 ++ "\n"

/-- The statements of a file, of none if it does not exist. -/
def existingStmts : Option String → Option (List Ast.Stmt)
  | none => some []
  | some text => body parse text

/-- What is written for the file. -/
def updateInit (existing : Option String) (module : String) (symbols : List String) : Except Raised String :=
  match existingStmts parse existing with
  | none => .error .syntaxError
  | some stmts => .ok (initText printable (mergeSymbols module symbols (moduleNames stmts)))

/-! What a module binds and exports. -/

/-- The names that a tree can hold in an import (`Word`), and those that can be written
in one (`Name`), and so with modules (`Path` and `Dotted`); and how the lines of the file
are parsed. The parser makes names equal that are written differently, after it has
looked for keywords: a tree can hold a name that cannot be written. -/
structure Grammar where
  Word : String → Prop
  Name : String → Prop
  Path : String → Prop
  Dotted : String → Prop
  word : ∀ {name}, Name name → Word name
  path : ∀ {module}, Dotted module → Path module
  star_not_name : ¬ Name "*"
  read : ∀ {text stmts level module names}, body parse text = some stmts →
    Ast.Stmt.importFrom level (some module) names ∈ stmts → Path module ∧ ∀ a ∈ names, Word a.name ∨ a.name = "*"
  empty : body parse "" = some []
  fromLine : ∀ {module names}, Dotted module → names = ["*"] ∨ names ≠ [] ∧ (∀ name ∈ names, Name name) →
    body parse (fromLine module names) = some [.importFrom 1 (some module) (names.map (⟨·, none⟩))]
  /-- What cannot be written is not parsed, and neither is `*` beside other names. -/
  rejected : ∀ {lines stmts module names rest}, bodyOf parse lines = some stmts → Path module → names ≠ [] →
    (∀ name ∈ names, Word name ∨ name = "*") → ¬ (Dotted module ∧ (names = ["*"] ∨ ∀ name ∈ names, Name name)) →
      body parse (Lines.unlines (lines ++ Scaffold.fromLine module names :: rest)) = none
  allLine : ∀ names, body parse (allLine printable names) = some [.assign ["__all__"] (some (names.map some))]

/-- The strings that the `__all__` of a module has after its statements, none if there is
no `__all__`. It may be one that is imported. -/
structure Exports where
  names : String → List String
  assigned : ∀ {text stmts targets strings}, body parse text = some (stmts ++ [.assign targets (some (strings.map some))]) →
    "__all__" ∈ targets → names text = strings

/-- A module binds. -/
def Bound (text : String) (b : Binding) : Prop := ∃ stmts, body parse text = some stmts ∧ ∃ stmt ∈ stmts, b ∈ bindings stmt

variable {parse} in
/-- `update_init` writes a file that binds all that the old one bound, exports all that
it exported, has the symbols, and is written again the second time. -/
structure LosesNothing (exports : Exports parse) (existing : Option String) (module : String) (symbols : List String)
    (after : String) : Prop where
  written : updateInit parse printable existing module symbols = .ok after
  bound : ∀ text, existing = some text → ∀ b, Bound parse text b → Bound parse after b
  kept : ∀ text, existing = some text → ∀ name ∈ exports.names text, name ∈ exports.names after
  imported : ∀ symbol ∈ symbols, ∃ stmts names, body parse after = some stmts ∧
    .importFrom 1 (some module) names ∈ stmts ∧ ⟨symbol, none⟩ ∈ names
  exported : ∀ symbol ∈ symbols, symbol ∈ exports.names after
  again : updateInit parse printable (some after) module symbols = .ok after

/-! When nothing is lost. -/

/-- The names imported from a module of the package, in order. -/
def namesFrom (module : String) (stmts : List Ast.Stmt) : List String :=
  stmts.flatMap (fun
    | .importFrom 1 (some m) names => if m = module then names.map Alias.name else []
    | _ => [])

/-- What the file that is written binds. -/
def Survives (stmts : List Ast.Stmt) (symbols : List String) : Binding → Prop
  | .name name => (name ≠ "*" ∧ ∃ module, name ∈ namesFrom module stmts) ∨ name ∈ symbols ∨
      (name = "__all__" ∧ ((moduleNames stmts).2 ≠ [] ∨ symbols ≠ []))
  | .star level module => level = 1 ∧ module ≠ none

variable {parse} in
/-- What the file that is written exports: what the last list or tuple assigned to
`__all__` has, and the symbols; without either, what its imports bring as `__all__`. -/
def Exported (exports : Exports parse) (stmts : List Ast.Stmt) (symbols : List String) (name : String) : Prop :=
  name ∈ (moduleNames stmts).2 ∨ name ∈ symbols ∨
    ((moduleNames stmts).2 = [] ∧ symbols = [] ∧ name ∈ exports.names (initText printable (moduleNames stmts)))

variable {parse printable} in
/-- What is imported from the package can be written, `import *` is the only import of its
module, and no symbol comes to it; and what the file binds and exports survives. -/
structure Readable (grammar : Grammar parse printable) (exports : Exports parse) (stmts : List Ast.Stmt)
    (exported : List String) (module : String) (symbols : List String) : Prop where
  legal : ∀ m, ∀ name ∈ namesFrom m stmts, grammar.Dotted m ∧ (grammar.Name name ∨ name = "*")
  stars : ∀ m, "*" ∈ namesFrom m stmts → namesFrom m stmts = ["*"] ∧ (m = module → symbols = [])
  binds : ∀ stmt ∈ stmts, ∀ b ∈ bindings stmt, Survives stmts symbols b
  exports : ∀ name ∈ exported, Exported printable exports stmts symbols name

/-! What is read. -/

section Reading
variable {stmts : List Ast.Stmt} {found : Imports × List String} {module : String} {symbols names : List String}

theorem mem_addNew {name symbol : String} : name ∈ addNew names symbol ↔ name ∈ names ∨ name = symbol := by
  unfold addNew
  split
  · next h =>
    constructor
    · exact .inl
    · intro hname
      cases hname with
      | inl hname => exact hname
      | inr hname => exact hname ▸ h
  · simp

theorem mem_addAll {name : String} : name ∈ addAll symbols names ↔ name ∈ names ∨ name ∈ symbols := by
  unfold addAll
  induction symbols generalizing names with
  | nil => simp
  | cons symbol rest ih => rw [List.foldl_cons, ih, mem_addNew, List.mem_cons, or_assoc]

theorem prefix_addAll (symbols names : List String) : names <+: addAll symbols names := by
  unfold addAll
  induction symbols generalizing names with
  | nil => exact List.prefix_rfl
  | cons symbol rest ih =>
    have hnew : names <+: addNew names symbol := by
      unfold addNew
      split
      · exact List.prefix_rfl
      · exact List.prefix_append _ _
    exact hnew.trans (ih _)

theorem addAll_eq_self (h : ∀ symbol ∈ symbols, symbol ∈ names) : addAll symbols names = names := by
  unfold addAll
  induction symbols with
  | nil => rfl
  | cons symbol rest ih =>
    rw [List.foldl_cons, addNew, if_pos (h symbol List.mem_cons_self)]
    exact ih (fun symbol hin => h symbol (List.mem_cons_of_mem _ hin))

theorem addAll_eq_nil : addAll symbols names = [] ↔ names = [] ∧ symbols = [] := by
  simp only [List.eq_nil_iff_forall_not_mem, mem_addAll, not_or, forall_and]

theorem get_readInit (stmt : Ast.Stmt) : (readInit found stmt).1.get module [] = found.1.get module [] ++ namesFrom module [stmt] := by
  unfold readInit
  split
  · next m names =>
    rw [Dict.get_alter]
    by_cases h : module = m
    · simp [namesFrom, h]
    · simp [namesFrom, h, Ne.symm h]
  · next targets elements =>
    have hnone : namesFrom module [.assign targets (some elements)] = [] := rfl
    rw [hnone, List.append_nil]
    split
    · rfl
    · rfl
  · next hfrom hassign =>
    have hnone : namesFrom module [stmt] = [] := by
      simp only [namesFrom, List.flatMap_cons, List.flatMap_nil, List.append_nil]
    rw [hnone, List.append_nil]

theorem namesFrom_cons (stmt : Ast.Stmt) (rest : List Ast.Stmt) :
    namesFrom module (stmt :: rest) = namesFrom module [stmt] ++ namesFrom module rest := by
  simp [namesFrom]

theorem get_moduleNames : (moduleNames stmts).1.get module [] = namesFrom module stmts := by
  have hfold : ∀ found : Imports × List String,
      (stmts.foldl readInit found).1.get module [] = found.1.get module [] ++ namesFrom module stmts := by
    induction stmts with
    | nil => simp [namesFrom]
    | cons stmt rest ih =>
      intro found
      rw [List.foldl_cons, ih, get_readInit, namesFrom_cons stmt rest, List.append_assoc]
  exact (hfold (Dict.empty, [])).trans (List.nil_append _)

theorem get_mergeSymbols (m : String) : (mergeSymbols module symbols (moduleNames stmts)).1.get m [] =
    if m = module then addAll symbols (namesFrom module stmts) else namesFrom m stmts := by
  rw [mergeSymbols, Dict.get_alter, get_moduleNames, get_moduleNames]

theorem exists_of_mem_namesFrom {name : String} (h : name ∈ namesFrom module stmts) : ∃ names a,
    .importFrom 1 (some module) names ∈ stmts ∧ a ∈ names ∧ a.name = name := by
  obtain ⟨stmt, hstmt, hname⟩ := List.mem_flatMap.mp h
  split at hname
  · next m names =>
    split at hname
    · next hm =>
      obtain ⟨a, ha, heq⟩ := List.mem_map.mp hname
      exact ⟨names, a, hm ▸ hstmt, ha, heq⟩
    · cases hname
  · cases hname

theorem mem_namesFrom {imported : List Alias} {a : Alias} (h : .importFrom 1 (some module) imported ∈ stmts)
    (ha : a ∈ imported) : a.name ∈ namesFrom module stmts := by
  apply List.mem_flatMap.mpr ⟨_, h, ?_⟩
  simpa using ⟨a, ha, rfl⟩

/-- A name of an entry was imported or is a symbol. -/
theorem mem_merged_iff (module : String) {name : String} :
    (∃ entry ∈ (mergeSymbols module symbols (moduleNames stmts)).1.entries, name ∈ entry.2) ↔
      (∃ m, name ∈ namesFrom m stmts) ∨ name ∈ symbols := by
  constructor
  · intro ⟨entry, hentry, hname⟩
    rw [← Dict.get_of_mem [] hentry, get_mergeSymbols] at hname
    split at hname
    · exact (mem_addAll.mp hname).imp_left (fun h => ⟨module, h⟩)
    · exact .inl ⟨_, hname⟩
  · intro h
    have hget : ∃ m, name ∈ (mergeSymbols module symbols (moduleNames stmts)).1.get m [] := by
      cases h with
      | inl h =>
        obtain ⟨m, hname⟩ := h
        refine ⟨m, ?_⟩
        rw [get_mergeSymbols]
        split
        · next hm => exact mem_addAll.mpr (.inl (hm ▸ hname))
        · exact hname
      | inr h =>
        refine ⟨module, ?_⟩
        rw [get_mergeSymbols, if_pos rfl]
        exact mem_addAll.mpr (.inr h)
    obtain ⟨m, hname⟩ := hget
    exact ⟨_, Dict.mem_of_get (List.ne_nil_of_mem hname), hname⟩

end Reading

/-! What is written. -/

def fromStmt (entry : String × List String) : Ast.Stmt := .importFrom 1 (some entry.1) (entry.2.map (⟨·, none⟩))

/-- The statements of the text. -/
def initStmts (found : Imports × List String) : List Ast.Stmt :=
  (found.1.entries.filter (fun entry => entry.2 ≠ [])).map fromStmt ++
    if found.2 = [] then [] else [.assign ["__all__"] (some (found.2.map some))]

section Writing
variable {parse printable} {found : Imports × List String} {entries : List (String × List String)}

variable (printable) in
/-- The lines of the text. -/
def initLines (found : Imports × List String) : List String :=
  (if importLines found.1 = [] then [""] else importLines found.1) ++
    if found.2 = [] then [] else ["", allLine printable found.2]

theorem initText_eq : initText printable found = Lines.unlines (initLines printable found) := by
  unfold initText initLines
  have hfirst : "\n".intercalate (importLines found.1) ++ "\n" =
      Lines.unlines (if importLines found.1 = [] then [""] else importLines found.1) := by
    split
    · next h => rw [h]; rfl
    · rfl
  have hne : (if importLines found.1 = [] then [""] else importLines found.1) ≠ [] := by
    split
    · exact List.cons_ne_nil _ _
    · next h => exact h
  rw [hfirst]
  by_cases hall : found.2 = []
  · rw [if_pos hall, if_pos hall, List.append_nil, String.append_empty]
  · rw [if_neg hall, if_neg hall, Lines.unlines_append hne (List.cons_ne_nil _ _)]
    simp [Lines.unlines, String.append_assoc]

/-- An entry whose line is a statement. -/
def Grammar.Good (grammar : Grammar parse printable) (entry : String × List String) : Prop :=
  grammar.Dotted entry.1 ∧ (entry.2 = ["*"] ∨ entry.2 ≠ [] ∧ ∀ name ∈ entry.2, grammar.Name name)

theorem bodyOf_entries (lawful : Lawful parse) (grammar : Grammar parse printable) (h : ∀ entry ∈ entries, grammar.Good entry) :
    bodyOf parse (entries.map (fun entry => fromLine entry.1 entry.2)) = some (entries.map fromStmt) := by
  induction entries with
  | nil => rfl
  | cons entry rest ih =>
    have hentry := h entry List.mem_cons_self
    have hrest := ih (fun entry hin => h entry (List.mem_cons_of_mem _ hin))
    exact bodyOf_append lawful (bodyOf_singleton lawful (grammar.fromLine hentry.1 hentry.2)) hrest

theorem bodyOf_blank (lawful : Lawful parse) (grammar : Grammar parse printable) : bodyOf parse [""] = some [] :=
  bodyOf_singleton lawful grammar.empty

theorem body_initText (lawful : Lawful parse) (grammar : Grammar parse printable)
    (h : ∀ entry ∈ found.1.entries, entry.2 ≠ [] → grammar.Good entry) :
    body parse (initText printable found) = some (initStmts found) := by
  have himports : bodyOf parse (if importLines found.1 = [] then [""] else importLines found.1) =
      some ((found.1.entries.filter (fun entry => entry.2 ≠ [])).map fromStmt) := by
    have hgood : ∀ entry ∈ found.1.entries.filter (fun entry => entry.2 ≠ []), grammar.Good entry := by
      intro entry hin
      obtain ⟨hin, hne⟩ := List.mem_filter.mp hin
      exact h entry hin (by simpa using hne)
    have hlines := bodyOf_entries lawful grammar hgood
    split
    · next hnil =>
      rw [importLines, List.map_eq_nil_iff] at hnil
      rw [bodyOf_blank lawful grammar, hnil]
      rfl
    · exact hlines
  have hall : bodyOf parse (if found.2 = [] then [] else ["", allLine printable found.2]) =
      some (if found.2 = [] then [] else [.assign ["__all__"] (some (found.2.map some))]) := by
    split
    · rfl
    · exact bodyOf_append lawful (bodyOf_blank lawful grammar) (bodyOf_singleton lawful (grammar.allLine _))
  have htext := bodyOf_append lawful himports hall
  rw [bodyOf, if_neg (by split <;> simp_all)] at htext
  rw [initText_eq]
  exact htext

/-- If the lines are a module, each of them can be written. -/
theorem good_of_body (lawful : Lawful parse) (grammar : Grammar parse printable)
    (hread : ∀ entry ∈ entries, grammar.Path entry.1 ∧ entry.2 ≠ [] ∧ ∀ name ∈ entry.2, grammar.Word name ∨ name = "*")
    {lines rest : List String} {stmts : List Ast.Stmt} (hlines : bodyOf parse lines = some stmts)
    (hbody : body parse (Lines.unlines (lines ++ entries.map (fun entry => fromLine entry.1 entry.2) ++ rest)) ≠ none) :
    ∀ entry ∈ entries, grammar.Good entry := by
  induction entries generalizing lines stmts with
  | nil => exact fun _ h => nomatch h
  | cons entry more ih =>
    obtain ⟨hpath, hne, hnames⟩ := hread entry List.mem_cons_self
    have hgood : grammar.Good entry := by
      by_contra hbad
      apply hbody
      rw [List.map_cons, List.append_assoc, List.cons_append]
      refine grammar.rejected hlines hpath hne hnames ?_
      exact fun h => hbad ⟨h.1, h.2.imp_right (fun hnames => ⟨hne, hnames⟩)⟩
    have hmore := ih (fun entry hin => hread entry (List.mem_cons_of_mem _ hin))
      (bodyOf_append lawful hlines (bodyOf_singleton lawful (grammar.fromLine hgood.1 hgood.2))) (by simpa using hbody)
    intro entry' hin
    cases List.mem_cons.mp hin with
    | inl heq => exact heq ▸ hgood
    | inr hin => exact hmore entry' hin

/-- The text is read back as it was written. -/
theorem moduleNames_initStmts (found : Imports × List String) : (moduleNames (initStmts found)).1.entries =
      found.1.entries.filter (fun entry => entry.2 ≠ []) ∧ (moduleNames (initStmts found)).2 = found.2 := by
  have himports : ∀ (es : List (String × List String)) (acc : Imports × List String),
      ((acc.1.entries ++ es).map Prod.fst).Nodup →
        ((es.map fromStmt).foldl readInit acc).1.entries = acc.1.entries ++ es ∧ ((es.map fromStmt).foldl readInit acc).2 = acc.2 := by
    intro es
    induction es with
    | nil => exact fun acc _ => ⟨(List.append_nil _).symm, rfl⟩
    | cons entry rest ih =>
      intro acc hnodup
      have hnew : entry.1 ∉ acc.1.entries.map Prod.fst := by
        rw [List.map_append, List.map_cons] at hnodup
        exact fun hin => (List.disjoint_of_nodup_append hnodup) hin List.mem_cons_self
      have hentries : (readInit acc (fromStmt entry)).1.entries = acc.1.entries ++ [entry] := by
        rw [fromStmt, readInit, Dict.entries_alter_new hnew]
        simp [Function.comp_def]
      rw [List.map_cons, List.foldl_cons]
      have hrest := ih (readInit acc (fromStmt entry)) (by simpa [hentries] using hnodup)
      rw [hentries, List.append_assoc] at hrest
      exact hrest
  have hnodup : ((found.1.entries.filter (fun entry => entry.2 ≠ [])).map Prod.fst).Nodup :=
    found.1.nodup.sublist (List.filter_sublist.map _)
  have hread := himports _ (Dict.empty, []) hnodup
  unfold moduleNames initStmts
  rw [List.foldl_append]
  split
  · next hnil => exact ⟨hread.1, hread.2.trans hnil.symm⟩
  · exact ⟨hread.1, by simp [readInit]⟩

/-- The symbols are imported from the module and are in `__all__`. -/
def HasSymbols (found : Imports × List String) (module : String) (symbols : List String) : Prop :=
  ∀ symbol ∈ symbols, symbol ∈ found.1.get module [] ∧ symbol ∈ found.2

theorem hasSymbols_mergeSymbols (module : String) (symbols : List String) (before : Imports × List String) :
    HasSymbols (mergeSymbols module symbols before) module symbols := by
  intro symbol hin
  rw [mergeSymbols, Dict.get_alter, if_pos rfl]
  exact ⟨mem_addAll.mpr (.inr hin), mem_addAll.mpr (.inr hin)⟩

/-- What the text has in it is not written again. -/
theorem initText_again {module : String} {symbols : List String} (h : HasSymbols found module symbols) :
    initText printable (mergeSymbols module symbols (moduleNames (initStmts found))) = initText printable found := by
  obtain ⟨hentries, hnames⟩ := moduleNames_initStmts found
  generalize moduleNames (initStmts found) = again at hentries hnames
  have hall : addAll symbols again.2 = found.2 := by
    rw [hnames]
    exact addAll_eq_self (fun symbol hin => (h symbol hin).2)
  have himports : (again.1.alter module [] (addAll symbols)).entries.filter (fun entry => entry.2 ≠ []) =
      found.1.entries.filter (fun entry => entry.2 ≠ []) := by
    by_cases hin : module ∈ again.1.entries.map Prod.fst
    · have hget : addAll symbols (again.1.get module []) = again.1.get module [] := by
        apply addAll_eq_self
        obtain ⟨entry, hentry, rfl⟩ := List.mem_map.mp hin
        have hin' : entry ∈ found.1.entries := by
          rw [hentries] at hentry
          exact List.mem_of_mem_filter hentry
        rw [Dict.get_of_mem [] hentry, ← Dict.get_of_mem [] hin']
        exact fun symbol hsymbol => (h symbol hsymbol).1
      rw [Dict.alter_eq_self hin hget, hentries, List.filter_filter]
      simp
    · -- only a module without names is missing
      have hsymbols : symbols = [] := by
        apply List.eq_nil_iff_forall_not_mem.mpr
        intro symbol hsymbol
        have hmem := Dict.mem_of_get (List.ne_nil_of_mem (h symbol hsymbol).1)
        apply hin
        rw [hentries]
        exact List.mem_map_of_mem (List.mem_filter.mpr ⟨hmem, by simpa using List.ne_nil_of_mem (h symbol hsymbol).1⟩)
      rw [Dict.entries_alter_new hin, List.filter_append, hentries, List.filter_filter, hsymbols]
      simp [addAll]
  unfold initText importLines mergeSymbols
  simp only [himports, hall]

end Writing

/-! What the new file has. -/

section After
variable {parse printable} {exports : Exports parse} {stmts : List Ast.Stmt} {found : Imports × List String}
  {module : String} {symbols : List String} {after : String}

theorem exports_after (hbody : body parse after = some (initStmts found)) (hne : found.2 ≠ []) :
    exports.names after = found.2 := by
  rw [initStmts, if_neg hne] at hbody
  exact exports.assigned hbody List.mem_cons_self

theorem mem_bindings_fromStmt {entry : String × List String} {b : Binding} : b ∈ bindings (fromStmt entry) ↔
    (∃ name ∈ entry.2, name ≠ "*" ∧ b = .name name) ∨ ("*" ∈ entry.2 ∧ b = .star 1 (some entry.1)) := by
  simp only [bindings, fromStmt, List.map_map, List.mem_map, Function.comp_apply, Alias.bound, Option.getD_none]
  constructor
  · intro ⟨name, hname, heq⟩
    split at heq
    · next hstar => exact .inr ⟨hstar ▸ hname, heq.symm⟩
    · next hstar => exact .inl ⟨name, hname, hstar, heq.symm⟩
  · intro h
    cases h with
    | inl h =>
      obtain ⟨name, hname, hstar, rfl⟩ := h
      exact ⟨name, hname, if_neg hstar⟩
    | inr h =>
      obtain ⟨hstar, rfl⟩ := h
      exact ⟨"*", hstar, if_pos rfl⟩

theorem bound_after_iff (hbody : body parse after = some (initStmts found)) (b : Binding) : Bound parse after b ↔
    (∃ entry ∈ found.1.entries, b ∈ bindings (fromStmt entry)) ∨ (found.2 ≠ [] ∧ b = .name "__all__") := by
  have hstmts : Bound parse after b ↔ ∃ stmt ∈ initStmts found, b ∈ bindings stmt := by
    rw [Bound, hbody]
    simp
  have hentries : (∃ stmt ∈ (found.1.entries.filter (fun entry => entry.2 ≠ [])).map fromStmt, b ∈ bindings stmt) ↔
      ∃ entry ∈ found.1.entries, b ∈ bindings (fromStmt entry) := by
    constructor
    · intro ⟨stmt, hstmt, hb⟩
      obtain ⟨entry, hentry, rfl⟩ := List.mem_map.mp hstmt
      exact ⟨entry, List.mem_of_mem_filter hentry, hb⟩
    · intro ⟨entry, hentry, hb⟩
      have hne : entry.2 ≠ [] := by
        intro hnil
        simp [bindings, fromStmt, hnil] at hb
      exact ⟨_, List.mem_map_of_mem (List.mem_filter.mpr ⟨hentry, by simpa using hne⟩), hb⟩
  rw [hstmts, initStmts]
  simp only [List.mem_append, or_and_right, exists_or, hentries]
  by_cases h : found.2 = []
  · simp [h]
  · simp [h, bindings]

/-- The new file binds a name exactly if it survives. -/
theorem bound_name_iff (hbody : body parse after = some (initStmts (mergeSymbols module symbols (moduleNames stmts))))
    (hlegal : "*" ∉ symbols) (name : String) : Bound parse after (.name name) ↔ Survives stmts symbols (.name name) := by
  have hall : (mergeSymbols module symbols (moduleNames stmts)).2 ≠ [] ↔ (moduleNames stmts).2 ≠ [] ∨ symbols ≠ [] := by
    rw [mergeSymbols, ne_eq, addAll_eq_nil, not_and_or]
  have hentries : (∃ entry ∈ (mergeSymbols module symbols (moduleNames stmts)).1.entries,
      Binding.name name ∈ bindings (fromStmt entry)) ↔ name ≠ "*" ∧ ((∃ m, name ∈ namesFrom m stmts) ∨ name ∈ symbols) := by
    rw [← mem_merged_iff module]
    simp only [mem_bindings_fromStmt, Binding.name.injEq, reduceCtorEq, and_false, or_false]
    constructor
    · intro ⟨entry, hentry, n, hn, hstar, heq⟩
      exact ⟨heq ▸ hstar, entry, hentry, heq ▸ hn⟩
    · intro ⟨hstar, entry, hentry, hn⟩
      exact ⟨entry, hentry, name, hn, hstar, rfl⟩
  rw [bound_after_iff hbody, hentries, hall]
  simp only [Survives, Binding.name.injEq]
  have hsymbol : name ∈ symbols → name ≠ "*" := fun hin heq => hlegal (heq ▸ hin)
  grind

/-- A star of the new file is of a module of the package. -/
theorem survives_star (hbody : body parse after = some (initStmts found)) {level : Nat} {m : Option String}
    (h : Bound parse after (.star level m)) : Survives stmts symbols (.star level m) := by
  rw [bound_after_iff hbody] at h
  simp only [mem_bindings_fromStmt, reduceCtorEq, and_false, exists_false, false_or, or_false, Binding.star.injEq] at h
  obtain ⟨entry, -, -, rfl, rfl⟩ := h
  exact ⟨rfl, Option.some_ne_none _⟩

/-- A star of the package is in the new file. -/
theorem bound_star (hbody : body parse after = some (initStmts (mergeSymbols module symbols (moduleNames stmts))))
    {stmt : Ast.Stmt} (hstmt : stmt ∈ stmts) {level : Nat} {m : Option String} (hb : .star level m ∈ bindings stmt)
    (h : Survives stmts symbols (.star level m)) : Bound parse after (.star level m) := by
  obtain ⟨rfl, hsome⟩ := h
  have hfrom : ∃ names a, stmt = .importFrom 1 m names ∧ a ∈ names ∧ a.name = "*" := by
    cases stmt with
    | importFrom level module names =>
      obtain ⟨a, ha, heq⟩ := List.mem_map.mp hb
      split at heq
      · next hstar =>
        obtain ⟨rfl, rfl⟩ := Binding.star.inj heq
        exact ⟨names, a, rfl, ha, hstar⟩
      · cases heq
    | importNames names => simp [bindings] at hb
    | assign targets elements => simp [bindings] at hb
    | call receiver method arguments keywords => cases hb
    | constant => cases hb
    | other names mentions => simp [bindings] at hb
  obtain ⟨names, a, rfl, ha, hstar⟩ := hfrom
  obtain ⟨m, rfl⟩ := Option.ne_none_iff_exists'.mp hsome
  have hname := mem_namesFrom hstmt ha
  rw [hstar] at hname
  rw [bound_after_iff hbody]
  refine .inl ?_
  have hget : "*" ∈ (mergeSymbols module symbols (moduleNames stmts)).1.get m [] := by
    rw [get_mergeSymbols]
    split
    · next hm => exact mem_addAll.mpr (.inl (hm ▸ hname))
    · exact hname
  exact ⟨_, Dict.mem_of_get (List.ne_nil_of_mem hget), mem_bindings_fromStmt.mpr (.inr ⟨hget, rfl⟩)⟩

/-- No symbols, no change. -/
theorem initText_mergeSymbols_nil (module : String) (found : Imports × List String) :
    initText printable (mergeSymbols module [] found) = initText printable found := by
  have hsame : (found.1.alter module [] (addAll [])).entries.filter (fun entry => entry.2 ≠ []) =
      found.1.entries.filter (fun entry => entry.2 ≠ []) := by
    by_cases hin : module ∈ found.1.entries.map Prod.fst
    · rw [Dict.alter_eq_self hin rfl]
    · rw [Dict.entries_alter_new hin, List.filter_append]
      simp [addAll]
  unfold initText importLines mergeSymbols
  simp only [hsame]
  rfl

/-- The new file exports a name exactly if `Exported` says so. -/
theorem exported_iff (hbody : body parse (initText printable (mergeSymbols module symbols (moduleNames stmts))) =
      some (initStmts (mergeSymbols module symbols (moduleNames stmts)))) (name : String) :
    name ∈ exports.names (initText printable (mergeSymbols module symbols (moduleNames stmts))) ↔
      Exported printable exports stmts symbols name := by
  unfold Exported
  by_cases hnone : (mergeSymbols module symbols (moduleNames stmts)).2 = []
  · obtain ⟨hall, rfl⟩ := addAll_eq_nil.mp hnone
    rw [initText_mergeSymbols_nil]
    simp [hall]
  · rw [exports_after hbody hnone]
    have hsome : ¬ ((moduleNames stmts).2 = [] ∧ symbols = []) := fun h => hnone (addAll_eq_nil.mpr h)
    rw [mergeSymbols, mem_addAll]
    grind

end After

/-! Nothing is lost exactly if the file is readable. -/

section LosesNothing
variable {parse printable} {exports : Exports parse} {stmts : List Ast.Stmt} {module : String} {symbols : List String}
  {existing : Option String}

/-- The names the old file has in `__all__`. -/
def oldExports (exports : Exports parse) : Option String → List String
  | none => []
  | some text => exports.names text

/-- What is imported from a module of the package was read. -/
theorem read_namesFrom (grammar : Grammar parse printable) (hold : existingStmts parse existing = some stmts) {name : String}
    (h : name ∈ namesFrom module stmts) : grammar.Path module ∧ (grammar.Word name ∨ name = "*") := by
  obtain ⟨names, a, hstmt, ha, rfl⟩ := exists_of_mem_namesFrom h
  cases existing with
  | none =>
    obtain rfl := Option.some.inj hold
    cases hstmt
  | some text =>
    obtain ⟨hpath, hnames⟩ := grammar.read hold hstmt
    exact ⟨hpath, hnames a ha⟩

theorem read_merged (grammar : Grammar parse printable) (hold : existingStmts parse existing = some stmts)
    (hmodule : grammar.Dotted module) (hsymbols : ∀ symbol ∈ symbols, grammar.Name symbol)
    {entry : String × List String} (hentry : entry ∈ (mergeSymbols module symbols (moduleNames stmts)).1.entries)
    (hne : entry.2 ≠ []) : grammar.Path entry.1 ∧ ∀ name ∈ entry.2, grammar.Word name ∨ name = "*" := by
  have hget := Dict.get_of_mem [] hentry
  rw [get_mergeSymbols] at hget
  by_cases hm : entry.1 = module
  · rw [if_pos hm] at hget
    refine ⟨hm ▸ grammar.path hmodule, fun name hin => ?_⟩
    rw [← hget, mem_addAll] at hin
    cases hin with
    | inl hin => exact (read_namesFrom grammar hold hin).2
    | inr hin => exact .inl (grammar.word (hsymbols name hin))
  · rw [if_neg hm] at hget
    obtain ⟨first, hfirst⟩ := List.exists_mem_of_ne_nil _ hne
    refine ⟨(read_namesFrom grammar hold (hget ▸ hfirst)).1, fun name hin => ?_⟩
    exact (read_namesFrom grammar hold (hget ▸ hin)).2

/-- Each entry is a star alone, or has none. -/
theorem stars_iff (hsymbols : "*" ∉ symbols) :
    (∀ entry ∈ (mergeSymbols module symbols (moduleNames stmts)).1.entries, "*" ∈ entry.2 → entry.2 = ["*"]) ↔
      ∀ m, "*" ∈ namesFrom m stmts → namesFrom m stmts = ["*"] ∧ (m = module → symbols = []) := by
  constructor
  · intro h m hstar
    have hprefix : namesFrom m stmts <+: (mergeSymbols module symbols (moduleNames stmts)).1.get m [] := by
      rw [get_mergeSymbols]
      split
      · next hm => exact hm ▸ prefix_addAll _ _
      · exact List.prefix_rfl
    have hget := hprefix.subset hstar
    have halone : (mergeSymbols module symbols (moduleNames stmts)).1.get m [] = ["*"] :=
      h _ (Dict.mem_of_get (List.ne_nil_of_mem hget)) hget
    constructor
    · rw [halone] at hprefix
      cases List.prefix_cons_iff.mp hprefix with
      | inl hnil => exact absurd hstar (by simp [hnil])
      | inr hcons =>
        obtain ⟨rest, heq, hrest⟩ := hcons
        rw [heq, List.prefix_nil.mp hrest]
    · intro hm
      rw [get_mergeSymbols, if_pos hm] at halone
      apply List.eq_nil_iff_forall_not_mem.mpr
      intro symbol hin
      have hsymbol : symbol ∈ addAll symbols (namesFrom module stmts) := mem_addAll.mpr (.inr hin)
      rw [halone, List.mem_singleton] at hsymbol
      exact hsymbols (hsymbol ▸ hin)
  · intro h entry hentry hstar
    have hget := Dict.get_of_mem [] hentry
    rw [get_mergeSymbols] at hget
    by_cases hm : entry.1 = module
    · rw [if_pos hm] at hget
      rw [← hget, mem_addAll] at hstar
      obtain ⟨halone, hnil⟩ := h module (hstar.resolve_right hsymbols)
      rw [hnil rfl] at hget
      exact hget.symm.trans halone
    · rw [if_neg hm] at hget
      rw [← hget]
      exact (h entry.1 (by rw [hget]; exact hstar)).1

/-- Each entry can be written exactly if what was read can be, and stars stand alone. -/
theorem good_merged_iff (grammar : Grammar parse printable) (hmodule : grammar.Dotted module)
    (hsymbols : ∀ symbol ∈ symbols, grammar.Name symbol) :
    (∀ entry ∈ (mergeSymbols module symbols (moduleNames stmts)).1.entries, entry.2 ≠ [] → grammar.Good entry) ↔
      (∀ m, ∀ name ∈ namesFrom m stmts, grammar.Dotted m ∧ (grammar.Name name ∨ name = "*")) ∧
        ∀ m, "*" ∈ namesFrom m stmts → namesFrom m stmts = ["*"] ∧ (m = module → symbols = []) := by
  have hstar : "*" ∉ symbols := fun hin => grammar.star_not_name (hsymbols _ hin)
  rw [← stars_iff hstar]
  constructor
  · intro h
    refine ⟨fun m name hname => ?_, fun entry hentry hin => ?_⟩
    · have hget : name ∈ (mergeSymbols module symbols (moduleNames stmts)).1.get m [] := by
        rw [get_mergeSymbols]
        split
        · next hm => exact mem_addAll.mpr (.inl (hm ▸ hname))
        · exact hname
      obtain ⟨hdotted, hnames⟩ := h _ (Dict.mem_of_get (List.ne_nil_of_mem hget)) (List.ne_nil_of_mem hget)
      refine ⟨hdotted, ?_⟩
      cases hnames with
      | inl halone =>
        have halone : (mergeSymbols module symbols (moduleNames stmts)).1.get m [] = ["*"] := halone
        rw [halone, List.mem_singleton] at hget
        exact .inr hget
      | inr hnames => exact .inl (hnames.2 name hget)
    · obtain ⟨-, hnames⟩ := h entry hentry (List.ne_nil_of_mem hin)
      exact hnames.resolve_right (fun hnames => grammar.star_not_name (hnames.2 _ hin))
  · intro ⟨hlegal, halone⟩ entry hentry hne
    have hget := Dict.get_of_mem [] hentry
    rw [get_mergeSymbols] at hget
    have hnames : grammar.Dotted entry.1 ∧ ∀ name ∈ entry.2, grammar.Name name ∨ name = "*" := by
      by_cases hm : entry.1 = module
      · rw [if_pos hm] at hget
        refine ⟨hm ▸ hmodule, fun name hin => ?_⟩
        rw [← hget, mem_addAll] at hin
        exact hin.elim (fun hin => (hlegal module name hin).2) (fun hin => .inl (hsymbols name hin))
      · rw [if_neg hm] at hget
        obtain ⟨first, hfirst⟩ := List.exists_mem_of_ne_nil _ hne
        exact ⟨(hlegal _ first (hget ▸ hfirst)).1, fun name hin => (hlegal _ name (hget ▸ hin)).2⟩
    refine ⟨hnames.1, ?_⟩
    by_cases hin : "*" ∈ entry.2
    · exact .inl (halone entry hentry hin)
    · exact .inr ⟨hne, fun name hname => (hnames.2 name hname).resolve_right (fun heq => hin (heq ▸ hname))⟩

/-- What parses can be written. -/
theorem good_of_parses (lawful : Lawful parse) (grammar : Grammar parse printable) {found : Imports × List String}
    (hread : ∀ entry ∈ found.1.entries, entry.2 ≠ [] →
      grammar.Path entry.1 ∧ ∀ name ∈ entry.2, grammar.Word name ∨ name = "*")
    (hparses : body parse (initText printable found) ≠ none) :
    ∀ entry ∈ found.1.entries, entry.2 ≠ [] → grammar.Good entry := by
  intro entry hentry hne
  -- an entry without names has no line
  have hwritten : entry ∈ found.1.entries.filter (fun entry => entry.2 ≠ []) :=
    List.mem_filter.mpr ⟨hentry, by simpa using hne⟩
  have hlines : importLines found.1 ≠ [] := List.ne_nil_of_mem (List.mem_map_of_mem hwritten)
  rw [initText_eq, initLines, if_neg hlines, importLines] at hparses
  refine good_of_body lawful grammar ?_ bodyOf_nil hparses entry hwritten
  intro entry hin
  obtain ⟨hin, hne⟩ := List.mem_filter.mp hin
  have hne : entry.2 ≠ [] := by simpa using hne
  exact ⟨(hread entry hin hne).1, hne, (hread entry hin hne).2⟩

/-- What the old file binds. -/
theorem bound_old_iff (hold : existingStmts parse existing = some stmts) (b : Binding) :
    (∃ text, existing = some text ∧ Bound parse text b) ↔ ∃ stmt ∈ stmts, b ∈ bindings stmt := by
  cases existing with
  | none =>
    obtain rfl := Option.some.inj hold
    simp
  | some text =>
    have hbody : body parse text = some stmts := hold
    simp [Bound, hbody]

theorem mem_oldExports {name : String} :
    name ∈ oldExports exports existing ↔ ∃ text, existing = some text ∧ name ∈ exports.names text := by
  cases existing <;> simp [oldExports]

end LosesNothing

variable {parse printable} in
/-- `update_init` loses nothing if and only if the file is readable. -/
theorem update_loses_nothing_iff (lawful : Lawful parse) (grammar : Grammar parse printable) (exports : Exports parse)
    (existing : Option String) (stmts : List Ast.Stmt) (hold : existingStmts parse existing = some stmts) (module : String)
    (hmodule : grammar.Dotted module) (symbols : List String) (hsymbols : ∀ symbol ∈ symbols, grammar.Name symbol) :
    (∃ after, LosesNothing printable exports existing module symbols after) ↔
      Readable grammar exports stmts (oldExports exports existing) module symbols := by
  have hstar : "*" ∉ symbols := fun hin => grammar.star_not_name (hsymbols _ hin)
  have hwritten : updateInit parse printable existing module symbols =
      .ok (initText printable (mergeSymbols module symbols (moduleNames stmts))) := by
    rw [updateInit, hold]
  have hgood := @good_merged_iff parse printable stmts module symbols grammar hmodule hsymbols
  constructor
  · intro ⟨after, h⟩
    obtain rfl : initText printable (mergeSymbols module symbols (moduleNames stmts)) = after := by
      have hok := h.written
      rw [hwritten] at hok
      exact Except.ok.inj hok
    have hparses : body parse (initText printable (mergeSymbols module symbols (moduleNames stmts))) ≠ none := by
      intro hnone
      have hagain := h.again
      rw [updateInit, existingStmts, hnone] at hagain
      cases hagain
    have hall := good_of_parses lawful grammar (fun _ hin hne => read_merged grammar hold hmodule hsymbols hin hne) hparses
    have hbody := body_initText lawful grammar hall
    obtain ⟨hlegal, hstars⟩ := hgood.mp hall
    refine ⟨hlegal, hstars, ?_, ?_⟩
    · intro stmt hstmt b hb
      obtain ⟨text, htext, hbound⟩ := (bound_old_iff hold b).mpr ⟨stmt, hstmt, hb⟩
      have hafter := h.bound text htext b hbound
      cases b with
      | name name => exact (bound_name_iff hbody hstar name).mp hafter
      | star level m => exact survives_star hbody hafter
    · intro name hname
      obtain ⟨text, htext, hin⟩ := mem_oldExports.mp hname
      exact (exported_iff hbody name).mp (h.kept text htext name hin)
  · intro h
    have hbody := body_initText lawful grammar (hgood.mpr ⟨h.legal, h.stars⟩)
    refine ⟨_, hwritten, ?_, ?_, ?_, ?_, ?_⟩
    · intro text htext b hb
      obtain ⟨stmt, hstmt, hb⟩ := (bound_old_iff hold b).mp ⟨text, htext, hb⟩
      have hsurvives := h.binds stmt hstmt b hb
      cases b with
      | name name => exact (bound_name_iff hbody hstar name).mpr hsurvives
      | star level m => exact bound_star hbody hstmt hb hsurvives
    · intro text htext name hname
      exact (exported_iff hbody name).mpr (h.exports name (mem_oldExports.mpr ⟨text, htext, hname⟩))
    · intro symbol hin
      have hget : symbol ∈ (mergeSymbols module symbols (moduleNames stmts)).1.get module [] := by
        rw [get_mergeSymbols, if_pos rfl]
        exact mem_addAll.mpr (.inr hin)
      have hentry := Dict.mem_of_get (List.ne_nil_of_mem hget)
      refine ⟨_, _, hbody, List.mem_append_left _ (List.mem_map_of_mem (List.mem_filter.mpr ⟨hentry, ?_⟩)), ?_⟩
      · simpa using List.ne_nil_of_mem hget
      · exact List.mem_map_of_mem hget
    · exact fun symbol hin => (exported_iff hbody symbol).mpr (.inr (.inl hin))
    · rw [updateInit, existingStmts, hbody]
      simp only [initText_again (hasSymbols_mergeSymbols module symbols _)]

/-! The parser by lines has such a grammar, and reads which strings are left. -/

theorem plain_fromLine {module : String} (hm : isModule module = true) {names : List String} (h : ∀ n ∈ names, IsPiece n) :
    Lines.Plain (fromLine module names).toList := by
  have hnames : Lines.Plain (", ".intercalate names).toList :=
    Lines.plain_intercalate (plain_of_ascii (by decide)) (fun n hn => plain_of_piece (h n hn))
  unfold fromLine
  rw [String.toList_append, String.toList_append, String.toList_append]
  refine Lines.Plain.append (Lines.Plain.append (Lines.Plain.append ?_ (plain_of_piece (isPiece_of_isModule hm))) ?_) hnames
  · exact plain_of_ascii (by decide)
  · exact plain_of_ascii (by decide)

theorem plain_allLine (names : List String) : Lines.Plain (allLine (fun _ => false) names).toList := by
  have hnames : Lines.Plain (", ".intercalate (names.map (Repr.repr (fun _ => false)))).toList := by
    apply Lines.plain_intercalate (plain_of_ascii (by decide))
    intro line hline
    obtain ⟨name, -, rfl⟩ := List.mem_map.mp hline
    exact plain_of_ascii (Repr.ascii_repr name)
  unfold allLine
  rw [String.toList_append, String.toList_append]
  exact Lines.Plain.append (Lines.Plain.append (plain_of_ascii (by decide)) hnames) (plain_of_ascii (by decide))

theorem body_from {module : String} (hm : isModule module = true) {name : String} {names : List String}
    (h : ∀ n ∈ name :: names, IsPiece n) : body (lineParser readLine) (fromLine module (name :: names)) =
      (starOrNames (commaTokens (name :: names))).map (fun names => [.importFrom 1 (some module) names]) := by
  rw [body_line (plain_fromLine hm h) (by simp [fromLine]), fromLine, readLine_from hm h]

/-- Strings are written with ASCII characters only. -/
def lineGrammar : Grammar (lineParser readLine) (fun _ => false) where
  Word name := isName name = true
  Name name := isName name = true
  Path module := isModule module = true
  Dotted module := isModule module = true
  word h := h
  path h := h
  star_not_name := by decide
  read := by
    intro text stmts level module names hbody hstmt
    rw [body_lineParser] at hbody
    obtain ⟨line, here, hread, hin⟩ := mem_stmtsOf hbody hstmt
    obtain ⟨hmodule, hnames⟩ := readLine_import hread hin
    refine ⟨hmodule, fun a ha => ?_⟩
    cases hnames with
    | inl hstar =>
      rw [hstar, List.mem_singleton] at ha
      exact .inr (ha ▸ rfl)
    | inr hnames => exact .inl (hnames a ha)
  empty := rfl
  fromLine := by
    intro module names hm h
    cases names with
    | nil => simp at h
    | cons name rest =>
      cases h with
      | inl hstar =>
        rw [body_from hm (by simp [hstar, IsPiece]), hstar]
        rfl
      | inr hnames =>
        rw [body_from hm (fun n hn => isPiece_of_isName (hnames.2 n hn)), starOrNames_of_names hnames.2]
        rfl
  rejected := by
    intro lines stmts module names rest hlines hm hne hnames hnot
    rw [not_and_or, not_or] at hnot
    obtain ⟨hmixed, hsome⟩ := hnot.resolve_left (not_not_intro hm)
    have hpieces : ∀ n ∈ names, IsPiece n := fun n hn => (hnames n hn).elim isPiece_of_isName .inr
    obtain ⟨other, hother, hnone⟩ : ∃ other ∈ names, isName other = false := by
      by_contra hall
      simp only [not_exists, not_and, Bool.not_eq_false] at hall
      exact hsome hall
    apply body_unread (plain_fromLine hm hpieces)
    cases names with
    | nil => exact absurd rfl hne
    | cons name more => rw [Scaffold.fromLine, readLine_from hm hpieces, starOrNames_none hpieces hother hnone hmixed, Option.map_none]
  allLine := by
    intro names
    rw [body_line (plain_allLine names) (by simp [Scaffold.allLine]), Scaffold.allLine, readLine_all]

/-- The strings in the last list or tuple. -/
def lastAll (parse : Parser) : Exports parse where
  names text := (moduleNames ((body parse text).getD [])).2
  assigned := by
    intro text stmts targets strings hbody htargets
    rw [hbody, Option.getD_some, moduleNames, List.foldl_append]
    simp [readInit, htargets]

/-- A formatted file is read back. -/
theorem update_loses_nothing_iff_formatted :
    ∃ after, LosesNothing (fun _ => false) (lastAll (lineParser readLine))
      (some "from .order import Order\n\n__all__ = [\"Order\"]\n") "item" ["Item"] after := by
  have hold : existingStmts (lineParser readLine) (some "from .order import Order\n\n__all__ = [\"Order\"]\n") =
      some [.importFrom 1 (some "order") [⟨"Order", none⟩], .assign ["__all__"] (some [some "Order"])] := by
    decide +kernel
  have hall : oldExports (lastAll (lineParser readLine)) (some "from .order import Order\n\n__all__ = [\"Order\"]\n") = ["Order"] := by
    decide +kernel
  have hmodule : lineGrammar.Dotted "item" := show isModule "item" = true by decide
  have hsymbols : ∀ symbol ∈ ["Item"], lineGrammar.Name symbol := show ∀ symbol ∈ ["Item"], isName symbol = true by decide
  refine (update_loses_nothing_iff (lineParser_lawful rfl) lineGrammar _ _ _ hold "item" hmodule ["Item"] hsymbols).mpr ?_
  have hfrom : ∀ m, ∀ name ∈ namesFrom m [.importFrom 1 (some "order") [⟨"Order", none⟩], .assign ["__all__"] (some [some "Order"])],
      m = "order" ∧ name = "Order" := by
    intro m name hname
    simp only [namesFrom, List.flatMap_cons, List.flatMap_nil, List.append_nil] at hname
    split at hname
    · next hm => exact ⟨hm.symm, by simpa using hname⟩
    · cases hname
  constructor
  · intro m name hname
    obtain ⟨rfl, rfl⟩ := hfrom m name hname
    exact ⟨show isModule "order" = true by decide, .inl (show isName "Order" = true by decide)⟩
  · intro m hstar
    exact absurd (hfrom m "*" hstar).2 (by decide)
  · intro stmt hstmt b hb
    simp only [List.mem_cons, List.not_mem_nil, or_false] at hstmt
    obtain rfl | rfl := hstmt
    · obtain rfl := List.mem_singleton.mp hb
      exact .inl ⟨by decide, "order", by decide⟩
    · obtain rfl := List.mem_singleton.mp hb
      exact .inr (.inr ⟨rfl, .inr (by decide)⟩)
  · intro name hname
    rw [hall] at hname
    exact .inl (by simpa [moduleNames, readInit] using hname)

/-- An absolute import is gone. -/
theorem absolute_import_lost : ¬ ∃ after, LosesNothing (fun _ => false) (lastAll (lineParser readLine))
    (some "from core.entities import BaseEntity\n") "item" ["Item"] after := by
  intro ⟨after, h⟩
  have hold : existingStmts (lineParser readLine) (some "from core.entities import BaseEntity\n") =
      some [.importFrom 0 (some "core.entities") [⟨"BaseEntity", none⟩]] := by
    decide +kernel
  have hbound : Bound (lineParser readLine) "from core.entities import BaseEntity\n" (.name "BaseEntity") :=
    ⟨_, hold, _, List.mem_singleton_self _, List.mem_singleton_self _⟩
  have hwritten := h.written
  rw [updateInit, hold] at hwritten
  obtain rfl := Except.ok.inj hwritten
  have hbody : body (lineParser readLine) (initText (fun _ => false) (mergeSymbols "item" ["Item"]
      (moduleNames [.importFrom 0 (some "core.entities") [⟨"BaseEntity", none⟩]]))) =
      some (initStmts (mergeSymbols "item" ["Item"] (moduleNames [.importFrom 0 (some "core.entities") [⟨"BaseEntity", none⟩]]))) := by
    apply body_initText (lineParser_lawful rfl) lineGrammar
    intro entry hentry hne
    obtain rfl := List.mem_singleton.mp hentry
    exact ⟨show isModule "item" = true by decide, .inr ⟨hne, show ∀ symbol ∈ ["Item"], isName symbol = true by decide⟩⟩
  have hafter := (bound_name_iff hbody (by decide) "BaseEntity").mp (h.bound _ rfl _ hbound)
  simp [Survives, namesFrom, moduleNames, readInit] at hafter

end FastiKit.Scaffold
