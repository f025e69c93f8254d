import FastiKit.Language.Toml
import FastiKit.Scaffold.Names

/- The lists of `pyproject.toml` that enumerate the domains, which are edited as text.

   Correspondence (Python ↔ Lean):
     `_list_values`          ↔ `listValues`
     `_add_to_list`          ↔ `addToList`, line by line
     `_pyproject_targets`    ↔ `Target` with `key`, `value` and `mustContain`
     `_dig`                  ↔ `dig`
     `_pyproject_lists`      ↔ `pyprojectLists`
     `register_pyproject`    ↔ `registerPyproject`, on the text of the file if it exists

   What is proved: where the lines that are edited are the entries of the target lists,
   the file that is written has the domain added and nothing else changed if and only if
   the strings that are found in those lines are what the lists have
   (`register_only_adds_iff`).

   `tomllib.loads` is a parameter; `EntryLines` is what is used of it. -/
namespace FastiKit.Scaffold.Pyproject
open Toml (Path Step)

/-! The edit of one list. -/

def splitNewlines (text : String) : List String := (text.toList.splitOn '\n').map String.ofList

def joinNewlines (lines : List String) : String := "\n".intercalate lines

/-- What stands between quotes, of a text cut at its quotes. -/
def quoted : List (List Char) → List String
  | _ :: value :: rest :: more => String.ofList value :: quoted (rest :: more)
  | _ => []

/-- `re.findall(r'"([^"]*)"', literal)` -/
def listValues (literal : List Char) : List String := quoted (literal.splitOn '"')

def render (values : List String) : List Char :=
  (", ".intercalate (values.map (fun v => "\"" ++ v ++ "\""))).toList

/-- `key = [literal]tail` -/
def entryLine (key : String) (literal tail : List Char) : String :=
  String.ofList (key.toList ++ (" = [".toList ++ (literal ++ ']' :: tail)))

/-- What is in the brackets of a line that matches, and what is after them. -/
def readEntry (key : String) (line : String) : Option (List Char × List Char) :=
  let rest := line.toList.drop (key.length + 4)
  if key.toList ++ " = [".toList <+: line.toList ∧ ']' ∈ rest then
    some (rest.takeWhile (· ≠ ']'), (rest.dropWhile (· ≠ ']')).tail)
  else none

/-- `must_contain is None or any(must_contain in v for v in values)` -/
def mentions (mustContain : Option String) (values : List String) : Bool :=
  match mustContain with
  | none => true
  | some m => values.any (fun v => decide (m.toList <:+: v.toList))

def eligible (key : String) (mustContain : Option String) (line : String) : Bool :=
  match readEntry key line with
  | none => false
  | some (literal, _) => mentions mustContain (listValues literal)

def addToLines (key value : String) (mustContain : Option String) (lines : List String) : List String :=
  match lines.findIdx? (eligible key mustContain) with
  | none => lines
  | some i =>
    match lines[i]?.bind (readEntry key) with
    | none => lines
    | some (literal, tail) =>
      if value ∈ listValues literal then lines
      else lines.set i (entryLine key (render (listValues literal ++ [value])) tail)

def addToList (content key value : String) (mustContain : Option String) : String :=
  joinNewlines (addToLines key value mustContain (splitNewlines content))

/-! The lists. -/

inductive Target where
  | include_
  | isortKnownFirstParty
  | source
  | deptryKnownFirstParty
  | rootPackages
  | containers
  | sourceModules
  deriving DecidableEq, Repr

def targets : List Target :=
  [.include_, .isortKnownFirstParty, .source, .deptryKnownFirstParty, .rootPackages, .containers, .sourceModules]

def Target.key : Target → String
  | .include_ => "include"
  | .isortKnownFirstParty => "known-first-party"
  | .source => "source"
  | .deptryKnownFirstParty => "known_first_party"
  | .rootPackages => "root_packages"
  | .containers => "containers"
  | .sourceModules => "source_modules"

def Target.value (domain : String) : Target → String
  | .include_ => domain ++ "*"
  | .sourceModules => domain ++ ".entities"
  | _ => domain

def Target.mustContain : Target → Option String
  | .sourceModules => some ".entities"
  | _ => none

/-- `data.get(key, default)`, which only a table has. -/
def getOr (data : Toml) (key : String) (default : Toml) : Option Toml :=
  match data with
  | .table fields => some ((Toml.field key fields).getD default)
  | _ => none

def isTruthy : Toml → Bool
  | .str s => s ≠ ""
  | .arr items => !items.isEmpty
  | .table fields => !fields.isEmpty
  | .other truthy _ => truthy

/-- `data.get(key, {})` for each key, at last `data or []`. -/
def dig (data : Toml) : List String → Option Toml
  | [] => some (if isTruthy data then data else .arr [])
  | key :: keys => (getOr data key (.table [])).bind (fun data => dig data keys)

/-- What a loop over the value sees. -/
def elements : Toml → Option (List Toml)
  | .arr items => some items
  | .str s => some (s.toList.map (fun c => .str (String.singleton c)))
  | .table fields => some (fields.map (fun entry => .str entry.1))
  | .other _ _ => none

/-- `next((c for c in contracts if p(c)), {})` -/
def nextWhere (p : Toml → Option Bool) : List Toml → Option Toml
  | [] => some (.table [])
  | c :: rest => (p c).bind (fun found => if found then some c else nextWhere p rest)

def isStr (s : String) : Toml → Bool
  | .str t => t = s
  | _ => false

/-- `c.get("type") == "layers"` -/
def isLayers (c : Toml) : Option Bool := (getOr c "type" (.other false "")).map (isStr "layers")

/-- `any(m.endswith(".entities") for m in modules)` -/
def anyEntities : List Toml → Option Bool
  | [] => some false
  | .str s :: rest => if ".entities".toList <:+ s.toList then some true else anyEntities rest
  | _ :: _ => none

def hasEntities (c : Toml) : Option Bool :=
  ((getOr c "source_modules" (.arr [])).bind elements).bind anyEntities

/-- The seven lists, in the order of the targets; `none` is an `AttributeError` or a
`TypeError`. -/
def pyprojectLists (data : Toml) : Option (List Toml) := do
  let tool ← getOr data "tool" (.table [])
  let contracts ← (← dig tool ["importlinter", "contracts"]) |> elements
  let layers ← nextWhere isLayers contracts
  let entities ← nextWhere hasEntities contracts
  let include_ ← dig tool ["setuptools", "packages", "find", "include"]
  let isort ← dig tool ["ruff", "lint", "isort", "known-first-party"]
  let source ← dig tool ["coverage", "run", "source"]
  let deptry ← dig tool ["deptry", "known_first_party"]
  let rootPackages ← dig tool ["importlinter", "root_packages"]
  let containers ← getOr layers "containers" (.arr [])
  let sourceModules ← getOr entities "source_modules" (.arr [])
  return [include_, isort, source, deptry, rootPackages, containers, sourceModules]

/-- `value in found` -/
def isIn (value : String) : Toml → Option Bool
  | .arr items => some (items.any (isStr value))
  | .str s => some (decide (value.toList <:+: s.toList))
  | .table fields => some (fields.any (fun entry => entry.1 = value))
  | .other _ _ => none

/-- `not any(value not in found for value, found in zip(expected, lists))` -/
def allIn : List (String × Toml) → Option Bool
  | [] => some true
  | (value, found) :: rest => (isIn value found).bind (fun there => if there then allIn rest else some false)

def edit (domain content : String) : String :=
  targets.foldl (fun content t => addToList content t.key (t.value domain) t.mustContain) content

/-- What is written for the file, if anything; the outer `none` is an exception. -/
def registerPyproject (loads : String → Option Toml) (domain : String) : Option String → Option (Option String)
  | none => some none
  | some original =>
    let content := edit domain original
    match loads content with
    | none => some none
    | some data =>
      match pyprojectLists data with
      | none => none
      | some lists =>
        match allIn ((targets.map (Target.value domain)).zip lists) with
        | none => none
        | some false => some none
        | some true => some (if content = original then none else some content)

/-! What is expected. -/

def contractPath (i : Nat) (key : String) : Path :=
  [.field "tool", .field "importlinter", .field "contracts", .index i, .field key]

/-- The contracts of a document. -/
def contractsOf (doc : Toml) : List Toml :=
  match Toml.get [.field "tool", .field "importlinter", .field "contracts"] doc with
  | some (.arr items) => items
  | _ => []

/-- Where the list of a target is; the contracts are chosen by their type and their modules. -/
def Target.path (doc : Toml) : Target → Path
  | .include_ => [.field "tool", .field "setuptools", .field "packages", .field "find", .field "include"]
  | .isortKnownFirstParty => [.field "tool", .field "ruff", .field "lint", .field "isort", .field "known-first-party"]
  | .source => [.field "tool", .field "coverage", .field "run", .field "source"]
  | .deptryKnownFirstParty => [.field "tool", .field "deptry", .field "known_first_party"]
  | .rootPackages => [.field "tool", .field "importlinter", .field "root_packages"]
  | .containers => contractPath ((contractsOf doc).findIdx (fun c => isLayers c = some true)) "containers"
  | .sourceModules => contractPath ((contractsOf doc).findIdx (fun c => hasEntities c = some true)) "source_modules"

/-- A list with the value appended if it is not there. -/
def appendValue (value : String) : Toml → Toml
  | .arr items => if items.any (isStr value) then .arr items else .arr (items ++ [.str value])
  | t => t

/-- The document with the domain in each of the lists. -/
def withDomain (domain : String) (doc : Toml) : Toml :=
  Toml.updateAll (Target.path doc) (fun t => appendValue (t.value domain)) targets doc

/-- The text between double quotes is a string in which no quote and no bracket is written. -/
def plainText (s : String) : Bool := (Toml.basicString s).isSome && !s.toList.contains '"' && !s.toList.contains ']'

/-- The string with this text between its quotes; a text that is none is not read. -/
def meant (s : String) : String := (Toml.basicString s).getD s

def blankOrComment (tail : List Char) : Bool :=
  (tail.dropWhile (fun c => c = ' ' || c = '\t')).head?.all (· = '#')

/-- `key = [literal]tail` is an entry of the table at `path`: a statement of TOML ends
before it, and one with it. -/
structure Entry (table : List String → Option Path) (path : Path) (before : List String) (key : String) (literal tail : List Char) :
    Prop where
  bare : key.toList.all (fun c => c.isAlphanum || c = '_' || c = '-') = true
  open_ : table before = some path
  closed : table (before ++ [entryLine key literal tail]) = some path
  tail : blankOrComment tail = true

/-- What TOML says of such an entry. `table` is the table that a line after these is an
entry of, `none` within a value. The document has the list there, and other strings in
the brackets change that list and nothing else, nor where other lines are. -/
structure EntryLines (loads : String → Option Toml) where
  table : List String → Option Path
  entry : ∀ {path before key literal tail after doc strings}, Entry table path before key literal tail →
    (∀ s ∈ strings, plainText s = true) → loads (joinNewlines (before ++ entryLine key literal tail :: after)) = some doc →
      (∃ items, Toml.get (path ++ [.field key]) doc = some (.arr items)) ∧
      loads (joinNewlines (before ++ entryLine key (render strings) tail :: after)) =
        some (Toml.update (path ++ [.field key]) (fun _ => .arr (strings.map (fun s => .str (meant s)))) doc)
  unmoved : ∀ {path before key literal tail strings}, Entry table path before key literal tail →
    (∀ s ∈ strings, plainText s = true) → ∀ more,
      table (before ++ entryLine key (render strings) tail :: more) = table (before ++ entryLine key literal tail :: more)

/-- The line that is edited for a target, and the strings it gets. -/
def editOf (domain : String) (lines : List String) (t : Target) : Option (Nat × List Char × List Char) :=
  (lines.findIdx? (eligible t.key t.mustContain)).bind (fun i =>
    (lines[i]?.bind (readEntry t.key)).bind (fun found =>
      if t.value domain ∈ listValues found.1 then none else some (i, found.1, found.2)))

/-- The line that is edited is the entry of the target list, and the texts between its
double quotes are strings, in which no quote is escaped. -/
def Placed (loads : String → Option Toml) (toml : EntryLines loads) (path : Path) (domain : String) (lines : List String) (t : Target) :
    Prop :=
  ∀ i literal tail, editOf domain lines t = some (i, literal, tail) →
    (∃ base, path = base ++ [.field t.key] ∧ Entry toml.table base (lines.take i) t.key literal tail) ∧
      ∀ s ∈ listValues literal, plainText s = true

/-- What is found in the line, with the domain, is what the list should be. -/
def Reads (domain : String) (doc : Toml) (lines : List String) (t : Target) : Prop :=
  ∀ i literal tail, editOf domain lines t = some (i, literal, tail) → ∀ items, Toml.get (t.path doc) doc = some (.arr items) →
    .arr ((listValues literal ++ [t.value domain]).map (fun s => .str (meant s))) = appendValue (t.value domain) (.arr items)

/-! Lines. -/

theorem splitNewlines_joinNewlines {lines : List String} (hne : lines ≠ []) (h : ∀ line ∈ lines, '\n' ∉ line.toList) :
    splitNewlines (joinNewlines lines) = lines := by
  have hjoin : (joinNewlines lines).toList = ['\n'].intercalate (lines.map String.toList) := String.toList_intercalate
  rw [splitNewlines, hjoin, List.splitOn_intercalate]
  · simp
  · simpa using h
  · simpa using hne

theorem joinNewlines_splitNewlines (text : String) : joinNewlines (splitNewlines text) = text := by
  rw [← String.toList_inj, joinNewlines, String.toList_intercalate, splitNewlines, List.map_map]
  have hid : String.toList ∘ String.ofList = id := funext (fun _ => String.toList_ofList)
  rw [hid, List.map_id]
  exact List.intercalate_splitOn '\n'

theorem toList_entryLine (key : String) (literal tail : List Char) :
    (entryLine key literal tail).toList = key.toList ++ (" = [".toList ++ (literal ++ ']' :: tail)) :=
  String.toList_ofList

theorem readEntry_some {key line : String} {literal tail : List Char} (h : readEntry key line = some (literal, tail)) :
    line = entryLine key literal tail := by
  unfold readEntry at h
  simp only at h
  split at h
  · next hmatch =>
    obtain ⟨⟨rest, hline⟩, hbracket⟩ := hmatch
    have hlength : (key.toList ++ " = [".toList).length = key.length + 4 := by
      rw [List.length_append, String.length_toList]
      rfl
    rw [← hline, List.drop_left' hlength] at h hbracket
    obtain ⟨rfl, rfl⟩ := Prod.mk.inj (Option.some.inj h)
    have hdrop : rest.dropWhile (· ≠ ']') = ']' :: (rest.dropWhile (· ≠ ']')).tail := by
      cases hcons : rest.dropWhile (· ≠ ']') with
      | nil =>
        rw [List.dropWhile_eq_nil_iff] at hcons
        exact absurd (hcons ']' hbracket) (by simp)
      | cons c more =>
        have hc := List.head?_dropWhile_not (fun c => decide (c ≠ ']')) rest
        rw [hcons] at hc
        have hc : c = ']' := by simpa using hc
        rw [hc, List.tail_cons]
    rw [entryLine, ← hdrop, List.takeWhile_append_dropWhile, ← List.append_assoc, hline, String.ofList_toList]
  · cases h

theorem readEntry_entryLine {key : String} {literal tail : List Char} (h : ']' ∉ literal) :
    readEntry key (entryLine key literal tail) = some (literal, tail) := by
  have hdrop : (entryLine key literal tail).toList.drop (key.length + 4) = literal ++ ']' :: tail := by
    have hlength : (key.toList ++ " = [".toList).length = key.length + 4 := by
      rw [List.length_append, String.length_toList]
      rfl
    rw [toList_entryLine, ← List.append_assoc, List.drop_left' hlength]
  have hall : ∀ c ∈ literal, decide (c ≠ ']') = true := fun c hc => decide_eq_true (fun heq => h (heq ▸ hc))
  unfold readEntry
  simp only [hdrop]
  rw [if_pos, List.takeWhile_append_of_pos hall, List.dropWhile_append_of_pos hall]
  · simp
  · refine ⟨?_, by simp⟩
    rw [toList_entryLine, ← List.append_assoc]
    exact List.prefix_append _ _

/-- The pieces between the quotes of a list that is rendered. -/
def pieces (first : List Char) : List String → List (List Char)
  | [] => [first]
  | [v] => [first, v.toList, []]
  | v :: rest => first :: v.toList :: pieces [',', ' '] rest

theorem intercalate_pieces (first : List Char) (values : List String) :
    ['"'].intercalate (pieces first values) = first ++ render values := by
  unfold render
  induction values generalizing first with
  | nil => simp [pieces]
  | cons v rest ih =>
    cases rest with
    | nil => simp [pieces, List.intercalate_cons_cons]
    | cons next more =>
      have hne : pieces [',', ' '] (next :: more) ≠ [] := by cases more <;> simp [pieces]
      rw [pieces, List.intercalate_cons_cons, List.intercalate_cons_of_ne_nil hne, ih]
      · simp [String.toList_intercalate]
      · exact List.cons_ne_nil _ _

theorem quoted_pieces (first : List Char) (values : List String) : quoted (pieces first values) = values := by
  induction values generalizing first with
  | nil => rfl
  | cons v rest ih =>
    cases rest with
    | nil => simp [pieces, quoted]
    | cons next more =>
      obtain ⟨piece, others, heq⟩ : ∃ piece others, pieces [',', ' '] (next :: more) = piece :: others := by
        cases more with
        | nil => exact ⟨_, _, rfl⟩
        | cons => exact ⟨_, _, rfl⟩
      rw [pieces, heq, quoted, ← heq, ih, String.ofList_toList]
      exact List.cons_ne_nil _ _

/-- What is rendered is found again. -/
theorem listValues_render {values : List String} (h : ∀ v ∈ values, '"' ∉ v.toList) : listValues (render values) = values := by
  have hquotes : ∀ (first : List Char) (values : List String), '"' ∉ first → (∀ v ∈ values, '"' ∉ v.toList) →
      ∀ piece ∈ pieces first values, '"' ∉ piece := by
    intro first values
    induction values generalizing first with
    | nil => simp [pieces]
    | cons v rest ih =>
      intro hfirst hvalues piece hin
      cases rest with
      | nil =>
        simp only [pieces, List.mem_cons, List.not_mem_nil, or_false] at hin
        obtain rfl | rfl | rfl := hin
        · exact hfirst
        · exact hvalues v List.mem_cons_self
        · exact List.not_mem_nil
      | cons next more =>
        rw [pieces, List.mem_cons, List.mem_cons] at hin
        · obtain rfl | rfl | hin := hin
          · exact hfirst
          · exact hvalues v List.mem_cons_self
          · exact ih [',', ' '] (by decide) (fun w hw => hvalues w (List.mem_cons_of_mem _ hw)) piece hin
        · exact List.cons_ne_nil _ _
  have hrender := intercalate_pieces [] values
  rw [List.nil_append] at hrender
  have hne : pieces [] values ≠ [] := by
    cases values with
    | nil => simp [pieces]
    | cons v rest => cases rest <;> simp [pieces]
  rw [listValues, ← hrender, List.splitOn_intercalate '"' (hquotes [] values List.not_mem_nil h) hne, quoted_pieces]

theorem takeWhile_key {key : String} (h : ' ' ∉ key.toList) (more : List Char) :
    (key.toList ++ (" = [".toList ++ more)).takeWhile (· ≠ ' ') = key.toList := by
  have hall : ∀ c ∈ key.toList, decide (c ≠ ' ') = true := by
    intro c hc
    exact decide_eq_true (fun heq => h (heq ▸ hc))
  rw [List.takeWhile_append_of_pos hall]
  simp

/-- The key of a line is what is before the first space. -/
theorem prefix_key {key key' : String} (hkey : ' ' ∉ key.toList) (hkey' : ' ' ∉ key'.toList) {literal tail : List Char}
    (h : key'.toList ++ " = [".toList <+: (entryLine key literal tail).toList) : key' = key := by
  obtain ⟨more, hmore⟩ := h
  rw [toList_entryLine, List.append_assoc] at hmore
  have hwords := congrArg (List.takeWhile (· ≠ ' ')) hmore
  rw [takeWhile_key hkey' more, takeWhile_key hkey] at hwords
  exact String.toList_inj.mp hwords

/-- A line that matches one key does not match another. -/
theorem eligible_entryLine_ne {key key' : String} (hkey : ' ' ∉ key.toList) (hkey' : ' ' ∉ key'.toList) (hne : key' ≠ key)
    (mustContain : Option String) (literal tail : List Char) : eligible key' mustContain (entryLine key literal tail) = false := by
  have hnone : readEntry key' (entryLine key literal tail) = none := by
    rw [readEntry, if_neg]
    exact fun hmatch => hne (prefix_key hkey hkey' hmatch.1)
  rw [eligible, hnone]

section Edits
variable {domain : String} {lines : List String} {t t' : Target} {i : Nat} {literal tail : List Char}

/-- The line after the edit. -/
def editedLine (domain : String) (t : Target) (literal tail : List Char) : String :=
  entryLine t.key (render (listValues literal ++ [t.value domain])) tail

theorem editOf_some (h : editOf domain lines t = some (i, literal, tail)) :
    lines[i]? = some (entryLine t.key literal tail) ∧ t.value domain ∉ listValues literal ∧
      addToLines t.key (t.value domain) t.mustContain lines = lines.set i (editedLine domain t literal tail) := by
  obtain ⟨j, hfirst, hrest⟩ := Option.bind_eq_some_iff.mp h
  obtain ⟨⟨lit, rest⟩, hfound, hvalue⟩ := Option.bind_eq_some_iff.mp hrest
  split at hvalue
  · cases hvalue
  · next hnot =>
    obtain ⟨rfl, rfl, rfl⟩ : j = i ∧ lit = literal ∧ rest = tail := by simpa using hvalue
    obtain ⟨line, hline, hread⟩ := Option.bind_eq_some_iff.mp hfound
    refine ⟨by rw [hline, readEntry_some hread], hnot, ?_⟩
    simp only [addToLines, hfirst, hfound, if_neg hnot, editedLine]

theorem editOf_none (h : editOf domain lines t = none) : addToLines t.key (t.value domain) t.mustContain lines = lines := by
  unfold addToLines
  split
  · rfl
  · next i hfirst =>
    split
    · rfl
    · next literal tail hfound =>
      simp only [editOf, hfirst, hfound, Option.bind_some] at h
      split at h
      · next hin => exact if_pos hin
      · cases h

theorem key_spaceless (t : Target) : ' ' ∉ t.key.toList := by
  cases t with
  | include_ => decide
  | isortKnownFirstParty => decide
  | source => decide
  | deptryKnownFirstParty => decide
  | rootPackages => decide
  | containers => decide
  | sourceModules => decide

theorem key_injective (h : t.key = t'.key) : t = t' := by
  cases t with
  | include_ => cases t' <;> first | rfl | exact absurd h (by decide)
  | isortKnownFirstParty => cases t' <;> first | rfl | exact absurd h (by decide)
  | source => cases t' <;> first | rfl | exact absurd h (by decide)
  | deptryKnownFirstParty => cases t' <;> first | rfl | exact absurd h (by decide)
  | rootPackages => cases t' <;> first | rfl | exact absurd h (by decide)
  | containers => cases t' <;> first | rfl | exact absurd h (by decide)
  | sourceModules => cases t' <;> first | rfl | exact absurd h (by decide)

/-- The edit for one target does not change which line another finds. -/
theorem findIdx?_set_ne (hne : t' ≠ t) (h : lines[i]? = some (entryLine t.key literal tail)) (literal' : List Char) :
    (lines.set i (entryLine t.key literal' tail)).findIdx? (eligible t'.key t'.mustContain) =
      lines.findIdx? (eligible t'.key t'.mustContain) := by
  have hkey : t'.key ≠ t.key := fun heq => hne (key_injective heq)
  have hold := eligible_entryLine_ne (key_spaceless t) (key_spaceless t') hkey t'.mustContain literal tail
  have hnew := eligible_entryLine_ne (key_spaceless t) (key_spaceless t') hkey t'.mustContain literal' tail
  have hmap : (lines.set i (entryLine t.key literal' tail)).map (eligible t'.key t'.mustContain) =
      lines.map (eligible t'.key t'.mustContain) := by
    rw [List.map_set, hnew, ← hold]
    apply List.ext_getElem?
    intro j
    rw [List.getElem?_set]
    split
    · next hij =>
      subst hij
      split
      · rw [List.getElem?_map, h]
        rfl
      · next hlen => rw [List.getElem?_eq_none (Nat.le_of_not_lt hlen)]
    · rfl
  have hid : ∀ ls : List String, ls.findIdx? (eligible t'.key t'.mustContain) =
      (ls.map (eligible t'.key t'.mustContain)).findIdx? id := by
    intro ls
    rw [List.findIdx?_map]
    rfl
  rw [hid, hid, hmap]

/-- The edit for one target is not seen by another. -/
theorem editOf_set_ne (hne : t' ≠ t) (h : lines[i]? = some (entryLine t.key literal tail)) (literal' : List Char) :
    editOf domain (lines.set i (entryLine t.key literal' tail)) t' = editOf domain lines t' := by
  have hkey : t'.key ≠ t.key := fun heq => hne (key_injective heq)
  have hold := eligible_entryLine_ne (key_spaceless t) (key_spaceless t') hkey t'.mustContain literal tail
  unfold editOf
  rw [findIdx?_set_ne hne h]
  cases hj : lines.findIdx? (eligible t'.key t'.mustContain) with
  | none => rfl
  | some j =>
    -- the line that is found is another
    have hij : i ≠ j := by
      intro hij
      subst hij
      obtain ⟨hlt, heligible, -⟩ := List.findIdx?_eq_some_iff_getElem.mp hj
      rw [List.getElem?_eq_getElem hlt] at h
      rw [Option.some.inj h, hold] at heligible
      cases heligible
    rw [Option.bind_some, Option.bind_some, List.getElem?_set_ne hij]

end Edits

/-! Lines stay lines. -/

section Newlines
variable {domain : String} {lines : List String}

theorem mem_quoted {pieces : List (List Char)} {v : String} (h : v ∈ quoted pieces) : v.toList ∈ pieces := by
  fun_induction quoted pieces with
  | case1 first value rest more ih =>
    cases List.mem_cons.mp h with
    | inl heq =>
      rw [heq, String.toList_ofList]
      exact List.mem_cons_of_mem _ List.mem_cons_self
    | inr hin => exact List.mem_cons_of_mem _ (List.mem_cons_of_mem _ (ih hin))
  | case2 => cases h

/-- What stands between quotes has none, and is of the text. -/
theorem mem_listValues {literal : List Char} {v : String} (h : v ∈ listValues literal) :
    '"' ∉ v.toList ∧ ∀ c ∈ v.toList, c ∈ literal := Words.mem_of_mem_splitOn (mem_quoted h)

theorem mem_render {values : List String} {c : Char} (h : c ∈ render values) :
    c ∈ [',', ' ', '"'] ∨ ∃ v ∈ values, c ∈ v.toList := by
  unfold render at h
  induction values with
  | nil => cases h
  | cons v rest ih =>
    cases rest with
    | nil =>
      rw [List.map_singleton, String.intercalate_singleton, String.toList_append, String.toList_append] at h
      simp only [List.mem_append] at h
      obtain (h | h) | h := h
      · exact .inl (by simp_all)
      · exact .inr ⟨v, List.mem_cons_self, h⟩
      · exact .inl (by simp_all)
    | cons next more =>
      have hchars : (", ".intercalate ((v :: next :: more).map (fun v => "\"" ++ v ++ "\""))).toList =
          '"' :: (v.toList ++ ('"' :: ',' :: ' ' :: (", ".intercalate ((next :: more).map (fun v => "\"" ++ v ++ "\""))).toList)) := by
        simp [String.toList_intercalate]
      rw [hchars] at h
      simp only [List.mem_cons, List.mem_append] at h
      obtain h | h | h | h | h | h := h
      · exact .inl (by simp [h])
      · exact .inr ⟨v, List.mem_cons_self, h⟩
      · exact .inl (by simp [h])
      · exact .inl (by simp [h])
      · exact .inl (by simp [h])
      · exact (ih h).imp_right (fun ⟨w, hw, hc⟩ => ⟨w, List.mem_cons_of_mem _ hw, hc⟩)

theorem splitNewlines_ne_nil (text : String) : splitNewlines text ≠ [] := by
  simp [splitNewlines, List.splitOn, List.splitOnP_ne_nil]

theorem mem_splitNewlines {text line : String} (h : line ∈ splitNewlines text) : '\n' ∉ line.toList := by
  obtain ⟨piece, hpiece, rfl⟩ := List.mem_map.mp h
  rw [String.toList_ofList]
  exact (Words.mem_of_mem_splitOn hpiece).1

theorem value_newline (hdomain : domain.toList.all isIdentifierChar = true) (t : Target) : '\n' ∉ (t.value domain).toList := by
  have hno : '\n' ∉ domain.toList := fun hin => absurd (List.all_eq_true.mp hdomain _ hin) (by decide)
  cases t <;> simp [Target.value, hno]

/-- The lines of the text that is edited. -/
def editLines (domain : String) (lines : List String) : List String :=
  targets.foldl (fun lines t => addToLines t.key (t.value domain) t.mustContain lines) lines

theorem newline_addToLines (hdomain : domain.toList.all isIdentifierChar = true) (t : Target)
    (h : ∀ line ∈ lines, '\n' ∉ line.toList) :
    ∀ line ∈ addToLines t.key (t.value domain) t.mustContain lines, '\n' ∉ line.toList := by
  cases hedit : editOf domain lines t with
  | none =>
    rw [editOf_none hedit]
    exact h
  | some found =>
    obtain ⟨i, literal, tail⟩ := found
    obtain ⟨hline, -, hset⟩ := editOf_some hedit
    have hold := h _ (List.mem_of_getElem? hline)
    rw [toList_entryLine] at hold
    simp only [List.mem_append, List.mem_cons, not_or] at hold
    rw [hset]
    intro line hin
    cases List.mem_or_eq_of_mem_set hin with
    | inl hin => exact h line hin
    | inr heq =>
      rw [heq, editedLine, toList_entryLine]
      simp only [List.mem_append, List.mem_cons, not_or]
      refine ⟨hold.1, hold.2.1, ?_, hold.2.2.2⟩
      intro hrender
      cases mem_render hrender with
      | inl hsign => exact absurd hsign (by decide)
      | inr hvalue =>
        obtain ⟨v, hv, hc⟩ := hvalue
        cases List.mem_append.mp hv with
        | inl hv => exact hold.2.2.1 ((mem_listValues hv).2 _ hc)
        | inr hv =>
          rw [List.mem_singleton.mp hv] at hc
          exact value_newline hdomain t hc

theorem addToLines_ne_nil (t : Target) (h : lines ≠ []) : addToLines t.key (t.value domain) t.mustContain lines ≠ [] := by
  cases hedit : editOf domain lines t with
  | none =>
    rw [editOf_none hedit]
    exact h
  | some found =>
    obtain ⟨i, literal, tail⟩ := found
    rw [(editOf_some hedit).2.2]
    simpa using h

theorem edit_eq (hdomain : domain.toList.all isIdentifierChar = true) (content : String) :
    edit domain content = joinNewlines (editLines domain (splitNewlines content)) := by
  have hfold : ∀ (ts : List Target) (lines : List String), lines ≠ [] → (∀ line ∈ lines, '\n' ∉ line.toList) →
      ts.foldl (fun content t => addToList content t.key (t.value domain) t.mustContain) (joinNewlines lines) =
        joinNewlines (ts.foldl (fun lines t => addToLines t.key (t.value domain) t.mustContain lines) lines) := by
    intro ts
    induction ts with
    | nil => exact fun _ _ _ => rfl
    | cons t rest ih =>
      intro lines hne hlines
      rw [List.foldl_cons, List.foldl_cons, addToList, splitNewlines_joinNewlines hne hlines]
      exact ih _ (addToLines_ne_nil t hne) (newline_addToLines hdomain t hlines)
  have hedit := hfold targets (splitNewlines content) (splitNewlines_ne_nil content) (fun _ hin => mem_splitNewlines hin)
  rwa [joinNewlines_splitNewlines] at hedit

end Newlines

/-! What the edited lines say. -/

section Documents
variable {loads : String → Option Toml} {toml : EntryLines loads} {domain : String} {lines : List String} {paths : Target → Path}

/-- What the edit of a line does to its list. -/
def edited (domain : String) (lines : List String) (t : Target) : Toml → Toml :=
  match editOf domain lines t with
  | none => id
  | some (_, literal, _) => fun _ => .arr ((listValues literal ++ [t.value domain]).map (fun s => .str (meant s)))

theorem literal_of_identifier {c : Char} (h : isIdentifierChar c = true) : Toml.isLiteral c = true ∧ c ≠ '"' ∧ c ≠ ']' := by
  have hnot : ∀ d : Char, isIdentifierChar d = false → c ≠ d := by
    rintro d hd rfl
    rw [hd] at h
    cases h
  have hrange : 48 ≤ c.toNat ∧ c.toNat ≤ 122 := by
    simp only [isIdentifierChar, Bool.or_eq_true, decide_eq_true_eq, isLower_iff, isDigit_iff] at h
    obtain (h | h) | rfl := h
    · omega
    · omega
    · decide
  refine ⟨?_, hnot '"' (by decide), hnot ']' (by decide)⟩
  have hquote : c ≠ '"' := hnot '"' (by decide)
  have hslash : c ≠ '\\' := hnot '\\' (by decide)
  simp [Toml.isLiteral, hquote, hslash]
  omega

/-- A text of such characters is plain, and the string it stands for. -/
theorem plainText_of_literal {s : String} (h : ∀ c ∈ s.toList, Toml.isLiteral c = true ∧ c ≠ '"' ∧ c ≠ ']') :
    plainText s = true ∧ meant s = s := by
  have hstring : Toml.basicString s = some s := Toml.basicString_of_literal (fun c hc => (h c hc).1)
  have hquote : '"' ∉ s.toList := fun hin => (h _ hin).2.1 rfl
  have hbracket : ']' ∉ s.toList := fun hin => (h _ hin).2.2 rfl
  constructor
  · simp [plainText, hstring, hquote, hbracket]
  · rw [meant, hstring, Option.getD_some]

theorem plainText_value (hdomain : domain.toList.all isIdentifierChar = true) (t : Target) : plainText (t.value domain) = true := by
  have hplain : ∀ c ∈ domain.toList, Toml.isLiteral c = true ∧ c ≠ '"' ∧ c ≠ ']' := by
    intro c hc
    exact literal_of_identifier (List.all_eq_true.mp hdomain c hc)
  have hsuffix : ∀ suffix : List Char, suffix.all (fun c => Toml.isLiteral c && c ≠ '"' && c ≠ ']') = true →
      plainText (domain ++ String.ofList suffix) = true := by
    intro suffix h
    refine (plainText_of_literal ?_).1
    intro c hc
    rw [String.toList_append, String.toList_ofList, List.mem_append] at hc
    cases hc with
    | inl hc => exact hplain c hc
    | inr hc => simpa [and_assoc] using List.all_eq_true.mp h c hc
  cases t with
  | include_ => exact hsuffix ['*'] (by decide)
  | isortKnownFirstParty => exact (plainText_of_literal hplain).1
  | source => exact (plainText_of_literal hplain).1
  | deptryKnownFirstParty => exact (plainText_of_literal hplain).1
  | rootPackages => exact (plainText_of_literal hplain).1
  | containers => exact (plainText_of_literal hplain).1
  | sourceModules => exact hsuffix ['.', 'e', 'n', 't', 'i', 't', 'i', 'e', 's'] (by decide)

theorem eq_take_drop {i : Nat} {old : String} (h : lines[i]? = some old) :
    i < lines.length ∧ lines = lines.take i ++ old :: lines.drop (i + 1) := by
  obtain ⟨hlt, rfl⟩ := List.getElem?_eq_some_iff.mp h
  exact ⟨hlt, by rw [List.getElem_cons_drop, List.take_append_drop]⟩

theorem take_set_append {i : Nat} {old : String} (h : lines[i]? = some old) (new : String) (j : Nat) :
    (lines.set i new).take j = lines.take j ∨ ∃ more, (lines.set i new).take j = lines.take i ++ new :: more ∧
      lines.take j = lines.take i ++ old :: more := by
  obtain ⟨hlt, hsplit⟩ := eq_take_drop h
  by_cases hij : j ≤ i
  · exact .inl (by rw [List.take_set_of_le hij])
  · obtain ⟨k, rfl⟩ := Nat.exists_eq_add_of_lt (Nat.lt_of_not_le hij)
    have hlength : (lines.take i).length = i := List.length_take_of_le (Nat.le_of_lt hlt)
    have htake : ∀ x, (lines.take i ++ x :: lines.drop (i + 1)).take (i + k + 1) =
        lines.take i ++ x :: (lines.drop (i + 1)).take k := by
      intro x
      have hlong : i + k + 1 = (lines.take i).length + (k + 1) := by omega
      rw [hlong, List.take_length_add_append, List.take_succ_cons]
    refine .inr ⟨(lines.drop (i + 1)).take k, ?_, ?_⟩
    · rw [List.set_eq_take_append_cons_drop, if_pos hlt, htake]
    · have hold := htake old
      rwa [← hsplit] at hold

/-- Where the other lines are is not changed. -/
theorem table_set {path : Path} {i : Nat} {key : String} {literal tail : List Char} {strings : List String}
    (hentry : Entry toml.table path (lines.take i) key literal tail) (hline : lines[i]? = some (entryLine key literal tail))
    (hstrings : ∀ s ∈ strings, plainText s = true) (j : Nat) (more : List String) :
    toml.table ((lines.set i (entryLine key (render strings) tail)).take j ++ more) = toml.table (lines.take j ++ more) := by
  cases take_set_append hline (entryLine key (render strings) tail) j with
  | inl h => rw [h]
  | inr h =>
    obtain ⟨between, hnew, hold⟩ := h
    rw [hnew, hold, List.append_assoc, List.append_assoc, List.cons_append, List.cons_append]
    exact toml.unmoved hentry hstrings _

theorem loads_editLines (hdomain : domain.toList.all isIdentifierChar = true) {ts : List Target} (hts : ts.Nodup) {doc : Toml}
    (hdoc : loads (joinNewlines lines) = some doc) (hplaced : ∀ t ∈ ts, Placed loads toml (paths t) domain lines t) :
    loads (joinNewlines (ts.foldl (fun lines t => addToLines t.key (t.value domain) t.mustContain lines) lines)) =
      some (Toml.updateAll paths (edited domain lines) ts doc) := by
  induction ts generalizing lines doc with
  | nil => exact hdoc
  | cons t rest ih =>
    rw [List.nodup_cons] at hts
    rw [List.foldl_cons]
    cases hedit : editOf domain lines t with
    | none =>
      rw [editOf_none hedit, ih hts.2 hdoc (fun t hin => hplaced t (List.mem_cons_of_mem _ hin))]
      have hid : edited domain lines t = id := by rw [edited, hedit]
      have hkeep : Toml.update (paths t) (edited domain lines t) doc = doc := by
        rw [hid]
        exact Toml.update_id (fun _ _ => rfl)
      rw [Toml.updateAll, Toml.updateAll, List.foldl_cons, hkeep]
    | some found =>
      obtain ⟨i, literal, tail⟩ := found
      obtain ⟨hline, -, hset⟩ := editOf_some hedit
      obtain ⟨⟨base, hpath, hentry⟩, hplain⟩ := hplaced t List.mem_cons_self i literal tail hedit
      have hstrings : ∀ s ∈ listValues literal ++ [t.value domain], plainText s = true := by
        intro s hs
        cases List.mem_append.mp hs with
        | inl hs => exact hplain s hs
        | inr hs => exact List.mem_singleton.mp hs ▸ plainText_value hdomain t
      obtain ⟨hlt, hsplit⟩ := eq_take_drop hline
      have hnew : loads (joinNewlines (lines.set i (editedLine domain t literal tail))) =
          some (Toml.update (paths t) (edited domain lines t) doc) := by
        rw [hsplit] at hdoc
        obtain ⟨-, hloads⟩ := toml.entry hentry hstrings hdoc
        rw [List.set_eq_take_append_cons_drop, if_pos hlt, edited, hedit, hpath]
        exact hloads
      have hsame : ∀ t' ∈ rest, editOf domain (lines.set i (editedLine domain t literal tail)) t' = editOf domain lines t' := by
        intro t' hin
        exact editOf_set_ne (fun heq : t' = t => hts.1 (heq ▸ hin)) hline _
      have hplacedRest : ∀ t' ∈ rest, Placed loads toml (paths t') domain (lines.set i (editedLine domain t literal tail)) t' := by
        intro t' hin j literal' tail' hedit'
        rw [hsame t' hin] at hedit'
        obtain ⟨⟨base', hpath', hentry'⟩, hplain'⟩ := hplaced t' (List.mem_cons_of_mem _ hin) j literal' tail' hedit'
        have htable := table_set hentry hline hstrings j
        refine ⟨⟨base', hpath', hentry'.bare, ?_, ?_, hentry'.tail⟩, hplain'⟩
        · have hopen := htable []
          rw [List.append_nil, List.append_nil] at hopen
          exact hopen.trans hentry'.open_
        · exact (htable _).trans hentry'.closed
      have hedits : ∀ t' ∈ rest, edited domain (lines.set i (editedLine domain t literal tail)) t' = edited domain lines t' := by
        intro t' hin
        rw [edited, edited, hsame t' hin]
      rw [hset, ih hts.2 hnew hplacedRest, Toml.updateAll_congr hedits]
      rfl

end Documents

/-! The lists that are checked are those at the paths. -/

section Checked
variable {data found : Toml} {value : String}

theorem ne_nil_of_isIn (h : isIn value found = some true) : found ≠ .arr [] := by
  intro heq
  rw [heq] at h
  cases h

theorem dig_empty (keys : List String) : dig (.table []) keys = some (.arr []) := by
  induction keys with
  | nil => rfl
  | cons key keys ih => exact ih

/-- A value is found at the end of the keys. -/
theorem get_of_dig {keys : List String} (h : dig data keys = some found) (hne : found ≠ .arr []) :
    Toml.get (keys.map .field) data = some found := by
  induction keys generalizing data with
  | nil =>
    unfold dig at h
    split at h
    · exact h
    · exact absurd (Option.some.inj h).symm hne
  | cons key keys ih =>
    obtain ⟨next, hnext, hrest⟩ := Option.bind_eq_some_iff.mp h
    unfold getOr at hnext
    split at hnext
    · next fields =>
      cases hfield : Toml.field key fields with
      | none =>
        rw [hfield, Option.getD_none] at hnext
        rw [← Option.some.inj hnext, dig_empty] at hrest
        exact absurd (Option.some.inj hrest).symm hne
      | some child =>
        rw [hfield, Option.getD_some] at hnext
        rw [← Option.some.inj hnext] at hrest
        rw [List.map_cons, Toml.get, Toml.child, hfield]
        exact ih hrest
    · cases hnext

theorem getOr_some {key : String} (h : getOr data key (.arr []) = some found) (hne : found ≠ .arr []) :
    Toml.child (.field key) data = some found := by
  unfold getOr at h
  split at h
  · next fields =>
    cases hfield : Toml.field key fields with
    | none =>
      rw [hfield, Option.getD_none] at h
      exact absurd (Option.some.inj h).symm hne
    | some child =>
      rw [hfield, Option.getD_some] at h
      rw [Toml.child, hfield, h]
  · cases h

/-- The tool table, or an empty one. -/
theorem getTool {tool : Toml} (h : getOr data "tool" (.table []) = some tool) :
    Toml.child (.field "tool") data = some tool ∨ tool = .table [] := by
  unfold getOr at h
  split at h
  · next fields =>
    cases hfield : Toml.field "tool" fields with
    | none =>
      rw [hfield, Option.getD_none] at h
      exact .inr (Option.some.inj h).symm
    | some child =>
      rw [hfield, Option.getD_some] at h
      exact .inl (by rw [Toml.child, hfield, h])
  · cases h

theorem get_of_dig_tool {tool : Toml} (htool : getOr data "tool" (.table []) = some tool) {keys : List String}
    (h : dig tool keys = some found) (hne : found ≠ .arr []) :
    Toml.get (.field "tool" :: keys.map .field) data = some found := by
  cases getTool htool with
  | inl hchild =>
    rw [Toml.get, hchild]
    exact get_of_dig h hne
  | inr hempty =>
    rw [hempty, dig_empty] at h
    exact absurd (Option.some.inj h).symm hne

theorem nextWhere_some {p : Toml → Option Bool} {cs : List Toml} {c : Toml} (h : nextWhere p cs = some c) :
    c = .table [] ∨ cs[cs.findIdx (fun c => p c = some true)]? = some c := by
  induction cs with
  | nil => exact .inl (Option.some.inj h).symm
  | cons first rest ih =>
    obtain ⟨there, hp, hnext⟩ := Option.bind_eq_some_iff.mp h
    cases there with
    | true =>
      obtain rfl := Option.some.inj hnext
      exact .inr (by simp [List.findIdx_cons, hp])
    | false =>
      refine (ih hnext).imp_right (fun hrest => ?_)
      simpa [List.findIdx_cons, hp] using hrest

theorem contracts_eq {tool contracts : Toml} {cs : List Toml} (htool : getOr data "tool" (.table []) = some tool)
    (h : dig tool ["importlinter", "contracts"] = some contracts) (hcs : elements contracts = some cs)
    {fields : List (String × Toml)} (hc : .table fields ∈ cs) : contractsOf data = cs := by
  have harr : contracts = .arr cs := by
    cases contracts with
    | arr items => rw [Option.some.inj hcs]
    | str s =>
      obtain rfl := Option.some.inj hcs
      simp at hc
    | table more =>
      obtain rfl := Option.some.inj hcs
      simp at hc
    | other truthy text => cases hcs
  have hne : contracts ≠ .arr [] := by
    rw [harr]
    intro heq
    rw [Toml.arr.inj heq] at hc
    cases hc
  have hget := get_of_dig_tool htool h hne
  rw [harr] at hget
  simp only [List.map_cons, List.map_nil] at hget
  simp only [contractsOf, hget]

/-- A list of the contract that is chosen. -/
theorem get_contract {tool contracts c : Toml} {cs : List Toml} (htool : getOr data "tool" (.table []) = some tool)
    (h : dig tool ["importlinter", "contracts"] = some contracts) (hcs : elements contracts = some cs)
    {p : Toml → Option Bool} (hc : nextWhere p cs = some c) {key : String} (hfound : getOr c key (.arr []) = some found)
    (hne : found ≠ .arr []) : Toml.get (contractPath ((contractsOf data).findIdx (fun c => p c = some true)) key) data = some found := by
  have hchild := getOr_some hfound hne
  cases nextWhere_some hc with
  | inl hempty =>
    rw [hempty] at hchild
    cases hchild
  | inr hindex =>
    obtain ⟨fields, rfl⟩ : ∃ fields, c = .table fields := by
      cases c with
      | table fields => exact ⟨fields, rfl⟩
      | str s => cases hchild
      | arr items => cases hchild
      | other truthy text => cases hchild
    have hcontracts := contracts_eq htool h hcs (List.mem_of_getElem? hindex)
    have hget : Toml.get [.field "tool", .field "importlinter", .field "contracts"] data = some (.arr cs) := by
      unfold contractsOf at hcontracts
      split at hcontracts
      · next items hitems => rw [hitems, hcontracts]
      · rw [← hcontracts] at hindex
        cases hindex
    rw [hcontracts]
    have hpath : contractPath (cs.findIdx (fun c => p c = some true)) key =
        [.field "tool", .field "importlinter", .field "contracts"] ++
          [.index (cs.findIdx (fun c => p c = some true)), .field key] := rfl
    rw [hpath, Toml.get_append, hget, Option.bind_some, Toml.get, Toml.child, hindex, Option.bind_some, Toml.get, hchild]
    rfl

theorem allIn_mem {pairs : List (String × Toml)} (h : allIn pairs = some true) : ∀ pair ∈ pairs, isIn pair.1 pair.2 = some true := by
  induction pairs with
  | nil => exact nofun
  | cons pair rest ih =>
    obtain ⟨there, hthere, hrest⟩ := Option.bind_eq_some_iff.mp h
    cases there with
    | false => cases hrest
    | true =>
      intro other hin
      cases List.mem_cons.mp hin with
      | inl heq => exact heq ▸ hthere
      | inr hin => exact ih hrest other hin

/-- Each of the lists has its value. -/
theorem checked {domain : String} {lists : List Toml} (hlists : pyprojectLists data = some lists)
    (hall : allIn ((targets.map (Target.value domain)).zip lists) = some true) (t : Target) :
    ∃ v, Toml.get (t.path data) data = some v ∧ isIn (t.value domain) v = some true := by
  unfold pyprojectLists at hlists
  obtain ⟨tool, htool, hlists⟩ := Option.bind_eq_some_iff.mp hlists
  obtain ⟨contracts, hcontracts, hlists⟩ := Option.bind_eq_some_iff.mp hlists
  obtain ⟨cs, hcs, hlists⟩ := Option.bind_eq_some_iff.mp hlists
  obtain ⟨layers, hlayers, hlists⟩ := Option.bind_eq_some_iff.mp hlists
  obtain ⟨entities, hentities, hlists⟩ := Option.bind_eq_some_iff.mp hlists
  obtain ⟨include_, hinclude, hlists⟩ := Option.bind_eq_some_iff.mp hlists
  obtain ⟨isort, hisort, hlists⟩ := Option.bind_eq_some_iff.mp hlists
  obtain ⟨source, hsource, hlists⟩ := Option.bind_eq_some_iff.mp hlists
  obtain ⟨deptry, hdeptry, hlists⟩ := Option.bind_eq_some_iff.mp hlists
  obtain ⟨roots, hroots, hlists⟩ := Option.bind_eq_some_iff.mp hlists
  obtain ⟨containers, hcontainers, hlists⟩ := Option.bind_eq_some_iff.mp hlists
  obtain ⟨modules, hmodules, hlists⟩ := Option.bind_eq_some_iff.mp hlists
  obtain rfl := Option.some.inj hlists
  have hin := allIn_mem hall
  cases t with
  | include_ =>
    have hvalue := hin (domain ++ "*", include_) (by simp [targets, Target.value])
    exact ⟨include_, get_of_dig_tool htool hinclude (ne_nil_of_isIn hvalue), hvalue⟩
  | isortKnownFirstParty =>
    have hvalue := hin (domain, isort) (by simp [targets, Target.value])
    exact ⟨isort, get_of_dig_tool htool hisort (ne_nil_of_isIn hvalue), hvalue⟩
  | source =>
    have hvalue := hin (domain, source) (by simp [targets, Target.value])
    exact ⟨source, get_of_dig_tool htool hsource (ne_nil_of_isIn hvalue), hvalue⟩
  | deptryKnownFirstParty =>
    have hvalue := hin (domain, deptry) (by simp [targets, Target.value])
    exact ⟨deptry, get_of_dig_tool htool hdeptry (ne_nil_of_isIn hvalue), hvalue⟩
  | rootPackages =>
    have hvalue := hin (domain, roots) (by simp [targets, Target.value])
    exact ⟨roots, get_of_dig_tool htool hroots (ne_nil_of_isIn hvalue), hvalue⟩
  | containers =>
    have hvalue := hin (domain, containers) (by simp [targets, Target.value])
    exact ⟨containers, get_contract htool hcontracts hcs hlayers hcontainers (ne_nil_of_isIn hvalue), hvalue⟩
  | sourceModules =>
    have hvalue := hin (domain ++ ".entities", modules) (by simp [targets, Target.value])
    exact ⟨modules, get_contract htool hcontracts hcs hentities hmodules (ne_nil_of_isIn hvalue), hvalue⟩

end Checked

/-! The targets are apart, and stay where they are. -/

section Apart
variable {doc d : Toml} {f : Toml → Toml}

theorem diverge_paths {t t' : Target} (hne : t ≠ t') : Toml.Diverge (t.path doc) (t'.path doc) := by
  cases t <;> cases t' <;> first | exact absurd rfl hne | simp [Target.path, contractPath, Toml.Diverge]

theorem pairwise_diverge : targets.Pairwise (fun t t' => Toml.Diverge (t.path doc) (t'.path doc)) := by
  have hnodup : targets.Nodup := by decide
  exact List.Pairwise.imp (fun hne => diverge_paths hne) hnodup

variable (doc d f) in
/-- A contract with the list of a target changed. -/
theorem contractsOf_update (t : Target) : contractsOf (Toml.update (t.path doc) f d) = contractsOf d ∨
    ∃ i, contractsOf (Toml.update (t.path doc) f d) = (contractsOf d).modify i (Toml.update [.field t.key] f) := by
  have hapart : ∀ path : Path, Toml.Diverge [.field "tool", .field "importlinter", .field "contracts"] path →
      contractsOf (Toml.update path f d) = contractsOf d := by
    intro path h
    rw [contractsOf, contractsOf, Toml.get_update_of_diverge h]
  have hwithin : ∀ i key, contractsOf (Toml.update (contractPath i key) f d) =
      (contractsOf d).modify i (Toml.update [.field key] f) := by
    intro i key
    have hpath : contractPath i key = [.field "tool", .field "importlinter", .field "contracts"] ++ [.index i, .field key] := rfl
    rw [contractsOf, contractsOf, hpath, Toml.get_update_append]
    cases Toml.get [.field "tool", .field "importlinter", .field "contracts"] d with
    | none => simp
    | some v =>
      cases v with
      | arr items => rfl
      | str s => simp [Toml.update, Toml.updateChild]
      | table fields => simp [Toml.update, Toml.updateChild]
      | other truthy text => simp [Toml.update, Toml.updateChild]
  cases t with
  | include_ => exact .inl (hapart _ (by simp [Target.path, Toml.Diverge]))
  | isortKnownFirstParty => exact .inl (hapart _ (by simp [Target.path, Toml.Diverge]))
  | source => exact .inl (hapart _ (by simp [Target.path, Toml.Diverge]))
  | deptryKnownFirstParty => exact .inl (hapart _ (by simp [Target.path, Toml.Diverge]))
  | rootPackages => exact .inl (hapart _ (by simp [Target.path, Toml.Diverge]))
  | containers => exact .inr ⟨_, hwithin _ _⟩
  | sourceModules => exact .inr ⟨_, hwithin _ _⟩

theorem getOr_update_ne {c : Toml} {key key' : String} (hne : key' ≠ key) (default : Toml) :
    getOr (Toml.update [.field key] f c) key' default = getOr c key' default := by
  cases c with
  | table fields => simp only [Toml.update, Toml.updateChild, getOr, Toml.field_updateField_ne hne]
  | str s => rfl
  | arr items => rfl
  | other truthy text => rfl

theorem findIdx_modify {cs : List Toml} {p : Toml → Bool} {g : Toml → Toml} (h : ∀ c, p (g c) = p c) (i : Nat) :
    (cs.modify i g).findIdx p = cs.findIdx p := by
  induction cs generalizing i with
  | nil => rw [List.modify_nil]
  | cons c rest ih =>
    cases i with
    | zero => rw [List.modify_zero_cons, List.findIdx_cons, List.findIdx_cons, h]
    | succ i => rw [List.modify_succ_cons, List.findIdx_cons, List.findIdx_cons, ih]

theorem layers_update (t : Target) : (contractsOf (Toml.update (t.path doc) f d)).findIdx (fun c => isLayers c = some true) =
    (contractsOf d).findIdx (fun c => isLayers c = some true) := by
  have hkey : "type" ≠ t.key := by cases t <;> decide
  cases contractsOf_update doc d f t with
  | inl h => rw [h]
  | inr h =>
    obtain ⟨i, h⟩ := h
    rw [h]
    exact findIdx_modify (fun c => by rw [isLayers, getOr_update_ne hkey, isLayers]) i

theorem entities_update {t : Target} (ht : t ≠ .sourceModules) :
    (contractsOf (Toml.update (t.path doc) f d)).findIdx (fun c => hasEntities c = some true) =
      (contractsOf d).findIdx (fun c => hasEntities c = some true) := by
  have hkey : "source_modules" ≠ t.key :=
    fun h => ht (key_injective (show t.key = Target.key .sourceModules from h.symm))
  cases contractsOf_update doc d f t with
  | inl h => rw [h]
  | inr h =>
    obtain ⟨i, h⟩ := h
    rw [h]
    exact findIdx_modify (fun c => by rw [hasEntities, getOr_update_ne hkey, hasEntities]) i

/-- A target whose list is not changed is where it was. -/
theorem path_updateAll {fs : Target → Toml → Toml} {t : Target} (ht : fs t = id) (ts : List Target) :
    t.path (Toml.updateAll (Target.path doc) fs ts d) = t.path d := by
  unfold Toml.updateAll
  induction ts generalizing d with
  | nil => rfl
  | cons first rest ih =>
    rw [List.foldl_cons, ih]
    cases t with
    | include_ => rfl
    | isortKnownFirstParty => rfl
    | source => rfl
    | deptryKnownFirstParty => rfl
    | rootPackages => rfl
    | containers => rw [Target.path, Target.path, layers_update]
    | sourceModules =>
      by_cases hfirst : first = .sourceModules
      · have hkeep : Toml.update (first.path doc) (fs first) d = d := by
          rw [hfirst, ht]
          exact Toml.update_id (fun _ _ => rfl)
        rw [hkeep]
      · rw [Target.path, Target.path, entities_update hfirst]

end Apart

/-! The domain is added and nothing else. -/

theorem appendValue_of_isIn {value : String} {v : Toml} (h : isIn value v = some true) : appendValue value v = v := by
  cases v with
  | arr items => exact if_pos (Option.some.inj h)
  | str s => rfl
  | table fields => rfl
  | other truthy text => rfl

/-- Where the edited lines are the entries of the target lists, `register_pyproject` adds
the domain and nothing else if and only if it reads the lists. -/
theorem register_only_adds_iff {loads : String → Option Toml} (toml : EntryLines loads) (content : String) (doc : Toml)
    (hdoc : loads content = some doc) (domain : String) (hdomain : domain.toList.all isIdentifierChar = true)
    (hplaced : ∀ t : Target, Placed loads toml (t.path doc) domain (splitNewlines content) t) (written : String)
    (hwritten : registerPyproject loads domain (some content) = some (some written)) :
    loads written = some (withDomain domain doc) ↔ ∀ t, Reads domain doc (splitNewlines content) t := by
  have hlines : loads (joinNewlines (splitNewlines content)) = some doc := by rw [joinNewlines_splitNewlines, hdoc]
  have hafter : loads (edit domain content) =
      some (Toml.updateAll (Target.path doc) (edited domain (splitNewlines content)) targets doc) := by
    rw [edit_eq hdomain, editLines]
    exact loads_editLines hdomain (by decide) hlines (fun t _ => hplaced t)
  -- the checks passed
  unfold registerPyproject at hwritten
  simp only [hafter] at hwritten
  split at hwritten
  · cases hwritten
  · next lists hlists =>
    split at hwritten
    · cases hwritten
    · cases hwritten
    · next hall =>
      obtain rfl : edit domain content = written := by
        split at hwritten
        · cases hwritten
        · exact Option.some.inj (Option.some.inj hwritten)
      rw [hafter, Option.some.injEq, withDomain, Toml.updateAll_eq_iff pairwise_diverge]
      have hunedited : ∀ t, editOf domain (splitNewlines content) t = none → ∀ v, Toml.get (t.path doc) doc = some v →
          appendValue (t.value domain) v = v := by
        intro t hedit v hv
        obtain ⟨w, hw, hin⟩ := checked hlists hall t
        have hid : edited domain (splitNewlines content) t = id := by rw [edited, hedit]
        have hmem : t ∈ targets := by cases t <;> decide
        rw [path_updateAll hid, Toml.get_updateAll pairwise_diverge hmem, hid, hv] at hw
        obtain rfl := Option.some.inj hw
        exact appendValue_of_isIn hin
      have hlist : ∀ t i literal tail, editOf domain (splitNewlines content) t = some (i, literal, tail) →
          ∃ items, Toml.get (t.path doc) doc = some (.arr items) := by
        intro t i literal tail hedit
        obtain ⟨⟨base, hpath, hentry⟩, -⟩ := hplaced t i literal tail hedit
        have hsplit := (eq_take_drop (editOf_some hedit).1).2
        rw [hsplit] at hlines
        rw [hpath]
        have hnone : ∀ s ∈ ([] : List String), plainText s = true := nofun
        exact (toml.entry hentry hnone hlines).1
      constructor
      · intro h t i literal tail hedit items hitems
        have hmem : t ∈ targets := by cases t <;> decide
        have hsame := h t hmem _ hitems
        rwa [edited, hedit] at hsame
      · intro h t hmem v hv
        cases hedit : editOf domain (splitNewlines content) t with
        | none =>
          rw [hunedited t hedit v hv, edited, hedit]
          rfl
        | some found =>
          obtain ⟨i, literal, tail⟩ := found
          obtain ⟨items, hitems⟩ := hlist t i literal tail hedit
          obtain rfl := Option.some.inj (hitems.symm.trans hv)
          rw [edited, hedit]
          exact h t i literal tail hedit items hitems

/-! A file in which one list is to be edited. -/

def linesBefore : List String :=
  ["[tool.setuptools.packages.find]", "include = [\"core*\", \"shop*\"]", "[tool.ruff.lint.isort]",
    "known-first-party = [\"core\", \"shop\"]", "[tool.coverage.run]"]

def linesAfter : List String :=
  ["[tool.deptry]", "known_first_party = [\"shop\"]", "[tool.importlinter]", "root_packages = [\"core\", \"shop\"]",
    "[[tool.importlinter.contracts]]", "type = \"layers\"", "containers = [\"shop\"]",
    "[[tool.importlinter.contracts]]", "type = \"independence\"", "source_modules = [\"shop.entities\"]"]

def strings (values : List String) : Toml := .arr (values.map .str)

/-- The document with these sources. -/
def document (sources : List String) : Toml :=
  .table [("tool", .table
    [("setuptools", .table [("packages", .table [("find", .table [("include", strings ["core*", "shop*"])])])]),
      ("ruff", .table [("lint", .table [("isort", .table [("known-first-party", strings ["core", "shop"])])])]),
      ("coverage", .table [("run", .table [("source", strings sources)])]),
      ("deptry", .table [("known_first_party", strings ["shop"])]),
      ("importlinter", .table
        [("root_packages", strings ["core", "shop"]),
          ("contracts", .arr
            [.table [("type", .str "layers"), ("containers", strings ["shop"])],
              .table [("type", .str "independence"), ("source_modules", strings ["shop.entities"])]])])])]

/-- Strings in double quotes, or a first one in single quotes. -/
def readLiteral (literal : List Char) : Option (List String) :=
  if literal = "'core', \"scripts\"".toList then some ["core", "scripts"]
  else if literal = render (listValues literal) ∧ (listValues literal).all plainText = true then
    some ((listValues literal).map meant)
  else none

def readSource (line : String) : Option (List String) :=
  match readEntry "source" line with
  | some (literal, []) => readLiteral literal
  | _ => none

def sampleLoads (text : String) : Option Toml :=
  let lines := splitNewlines text
  if lines.take 5 = linesBefore ∧ lines.drop 6 = linesAfter then (lines[5]?.bind readSource).map document else none

def sampleTable (before : List String) : Option Path :=
  if before.take 5 = linesBefore ∧ (before.length = 5 ∨ before.length = 6 ∧ (before[5]?.bind readSource).isSome) then
    some [.field "tool", .field "coverage", .field "run"]
  else none

theorem plainText_iff {s : String} (h : plainText s = true) : '"' ∉ s.toList ∧ ']' ∉ s.toList ∧ '\n' ∉ s.toList := by
  simp only [plainText, Bool.and_eq_true, Bool.not_eq_true', List.contains_eq_mem, decide_eq_false_iff_not] at h
  obtain ⟨⟨hstring, hquote⟩, hbracket⟩ := h
  exact ⟨hquote, hbracket, Toml.newline_basicString hstring⟩

theorem render_plain {values : List String} (h : ∀ s ∈ values, plainText s = true) :
    ']' ∉ render values ∧ '\n' ∉ render values := by
  constructor
  · intro hin
    obtain hsign | ⟨v, hv, hc⟩ := mem_render hin
    · exact absurd hsign (by decide)
    · exact (plainText_iff (h v hv)).2.1 hc
  · intro hin
    obtain hsign | ⟨v, hv, hc⟩ := mem_render hin
    · exact absurd hsign (by decide)
    · exact (plainText_iff (h v hv)).2.2 hc

theorem readLiteral_render {values : List String} (h : ∀ s ∈ values, plainText s = true) :
    readLiteral (render values) = some (values.map meant) := by
  have hvalues : listValues (render values) = values := listValues_render (fun v hv => (plainText_iff (h v hv)).1)
  have hquoted : render values ≠ "'core', \"scripts\"".toList := by
    intro heq
    rw [heq] at hvalues
    have hscripts : values = ["scripts"] := by
      rw [← hvalues]
      decide +kernel
    rw [hscripts] at heq
    exact absurd heq (by decide +kernel)
  rw [readLiteral, if_neg hquoted, hvalues, if_pos ⟨rfl, List.all_eq_true.mpr h⟩]

theorem readLiteral_some {literal : List Char} {values : List String} (h : readLiteral literal = some values) :
    ']' ∉ literal ∧ '\n' ∉ literal := by
  unfold readLiteral at h
  split at h
  · next heq =>
    rw [heq]
    exact ⟨by decide, by decide⟩
  · split at h
    · next hplain =>
      have hclean := render_plain (List.all_eq_true.mp hplain.2)
      rwa [← hplain.1] at hclean
    · cases h

theorem readSource_render {values : List String} (h : ∀ s ∈ values, plainText s = true) :
    readSource (entryLine "source" (render values) []) = some (values.map meant) := by
  rw [readSource, readEntry_entryLine (render_plain h).1]
  exact readLiteral_render h

/-- The brackets of an entry that is read close at its end. -/
theorem readSource_entryLine {key : String} {literal tail : List Char} {values : List String} (hkey : ' ' ∉ key.toList)
    (h : readSource (entryLine key literal tail) = some values) : key = "source" ∧ tail = [] ∧ '\n' ∉ literal := by
  unfold readSource at h
  split at h
  · next literal' hread =>
    have hsame := readEntry_some hread
    have hclean := readLiteral_some h
    have hprefix : "source".toList ++ " = [".toList <+: (entryLine key literal tail).toList := by
      rw [hsame, toList_entryLine, ← List.append_assoc]
      exact List.prefix_append _ _
    obtain rfl := prefix_key hkey (by decide) hprefix
    have hchars := congrArg String.toList hsame
    rw [toList_entryLine, toList_entryLine, List.append_cancel_left_eq, List.append_cancel_left_eq] at hchars
    obtain rfl | ⟨more, last, rfl⟩ := List.eq_nil_or_concat' tail
    · obtain ⟨rfl, -⟩ := List.append_inj' hchars rfl
      exact ⟨rfl, rfl, hclean.2⟩
    · -- another bracket would be among the strings
      have hcons : literal ++ ']' :: (more ++ [last]) = (literal ++ ']' :: more) ++ [last] := by simp
      rw [hcons] at hchars
      obtain ⟨hliteral, -⟩ := List.append_inj' hchars rfl
      rw [← hliteral] at hclean
      exact absurd (by simp) hclean.1
  · cases h

/-- The one entry there is. -/
theorem sample_entry {path : Path} {before : List String} {key : String} {literal tail : List Char}
    (h : Entry sampleTable path before key literal tail) : before = linesBefore ∧ key = "source" ∧ tail = [] ∧ '\n' ∉ literal ∧
      path = [.field "tool", .field "coverage", .field "run"] ∧ ∃ values, readSource (entryLine key literal tail) = some values := by
  obtain ⟨hbare, hopen, hclosed, -⟩ := h
  unfold sampleTable at hopen hclosed
  split at hopen
  · next hbefore =>
    split at hclosed
    · next hafter =>
      rw [List.length_append, List.length_singleton] at hafter
      have hlength : before.length = 5 := by
        have h5 := hbefore.2
        have h6 := hafter.2
        omega
      have hlines : before = linesBefore := by rw [← hbefore.1, List.take_of_length_le (Nat.le_of_eq hlength)]
      obtain ⟨values, hvalues⟩ : ∃ values, readSource (entryLine key literal tail) = some values := by
        have hread := (hafter.2.resolve_left (by omega)).2
        rw [List.getElem?_append_right (Nat.le_of_eq hlength), hlength] at hread
        exact Option.isSome_iff_exists.mp hread
      have hspace : ' ' ∉ key.toList := fun hin => absurd (List.all_eq_true.mp hbare _ hin) (by decide)
      obtain ⟨hkey, htail, hnewline⟩ := readSource_entryLine hspace hvalues
      exact ⟨hlines, hkey, htail, hnewline, (Option.some.inj hopen).symm, values, hvalues⟩
    · cases hclosed
  · cases hopen

/-- The lines of a text up to one of them, whatever comes after it. -/
theorem splitNewlines_append {before : List String} {line : String} (hbefore : ∀ l ∈ before, '\n' ∉ l.toList)
    (hline : '\n' ∉ line.toList) (after : List String) : splitNewlines (joinNewlines (before ++ line :: after)) =
      before ++ line :: (if after = [] then [] else splitNewlines (joinNewlines after)) := by
  have hfirst : ∀ (l : String) (more : List String), '\n' ∉ l.toList →
      splitNewlines (joinNewlines (l :: more)) = l :: (if more = [] then [] else splitNewlines (joinNewlines more)) := by
    intro l more hl
    cases more with
    | nil => exact splitNewlines_joinNewlines (List.cons_ne_nil _ _) (by simpa using hl)
    | cons next rest =>
      have hjoin : (joinNewlines (l :: next :: rest)).toList = l.toList ++ '\n' :: (joinNewlines (next :: rest)).toList := by
        rw [joinNewlines, joinNewlines, String.intercalate_cons_cons, String.toList_append, String.toList_append]
        simp
      rw [splitNewlines, hjoin, List.splitOn_append_cons_self_of_not_mem hl, List.map_cons, String.ofList_toList,
        if_neg (List.cons_ne_nil _ _)]
      rfl
  induction before with
  | nil => exact hfirst line after hline
  | cons l rest ih =>
    have hne : rest ++ line :: after ≠ [] := List.append_ne_nil_of_right_ne_nil _ (List.cons_ne_nil _ _)
    rw [List.cons_append, hfirst l _ (hbefore l List.mem_cons_self), if_neg hne,
      ih (fun l hl => hbefore l (List.mem_cons_of_mem _ hl)), List.cons_append]

theorem newline_entryLine {literal : List Char} (h : '\n' ∉ literal) : '\n' ∉ (entryLine "source" literal []).toList := by
  rw [toList_entryLine]
  simp only [List.mem_append, List.mem_cons, List.not_mem_nil, or_false, not_or]
  exact ⟨by decide, by decide, h, by decide⟩

theorem newline_linesBefore : ∀ l ∈ linesBefore, '\n' ∉ l.toList := by
  have hall : linesBefore.all (fun l => decide ('\n' ∉ l.toList)) = true := by decide +kernel
  exact fun l hl => of_decide_eq_true (List.all_eq_true.mp hall l hl)

/-- The document of a text with an entry that is read. -/
theorem sampleLoads_entryLine {literal : List Char} {values : List String} (hnewline : '\n' ∉ literal)
    (h : readSource (entryLine "source" literal []) = some values) (after : List String) :
    sampleLoads (joinNewlines (linesBefore ++ entryLine "source" literal [] :: after)) =
      if (if after = [] then [] else splitNewlines (joinNewlines after)) = linesAfter then some (document values) else none := by
  unfold sampleLoads
  simp only [splitNewlines_append newline_linesBefore (newline_entryLine hnewline)]
  have hlength : linesBefore.length = 5 := rfl
  have htake : ∀ more : List String, (linesBefore ++ more).take 5 = linesBefore := fun _ => rfl
  have hdrop : ∀ (line : String) more, (linesBefore ++ line :: more).drop 6 = more := fun _ _ => rfl
  have hget : ∀ (line : String) more, (linesBefore ++ line :: more)[5]? = some line := fun _ _ => rfl
  simp only [htake, hdrop, hget, true_and, Option.bind_some, h, Option.map_some]

def sampleLines : EntryLines sampleLoads where
  table := sampleTable
  entry := by
    intro path before key literal tail after doc values hentry hvalues hloads
    obtain ⟨rfl, rfl, rfl, hnewline, rfl, old, hold⟩ := sample_entry hentry
    rw [sampleLoads_entryLine hnewline hold] at hloads
    by_cases hafter : (if after = [] then [] else splitNewlines (joinNewlines after)) = linesAfter
    · rw [if_pos hafter] at hloads
      obtain rfl := Option.some.inj hloads
      refine ⟨⟨old.map .str, rfl⟩, ?_⟩
      rw [sampleLoads_entryLine (render_plain hvalues).2 (readSource_render hvalues), if_pos hafter]
      have hstrings : (values.map meant).map Toml.str = values.map (fun s => .str (meant s)) := List.map_map
      rw [← hstrings]
      rfl
    · rw [if_neg hafter] at hloads
      cases hloads
  unmoved := by
    intro path before key literal tail values hentry hvalues more
    obtain ⟨rfl, rfl, rfl, hnewline, rfl, old, hold⟩ := sample_entry hentry
    have htable : ∀ (line : String) {strings : List String}, readSource line = some strings →
        sampleTable (linesBefore ++ line :: more) =
          if more = [] then some [.field "tool", .field "coverage", .field "run"] else none := by
      intro line strings hline
      have htake : (linesBefore ++ line :: more).take 5 = linesBefore := rfl
      have hget : (linesBefore ++ line :: more)[5]? = some line := rfl
      have hlength : (linesBefore ++ line :: more).length = more.length + 6 := by
        rw [List.length_append, List.length_cons]
        simp [linesBefore]
        omega
      unfold sampleTable
      rw [htake, hget, hlength]
      simp [hline]
    rw [htable _ (readSource_render hvalues), htable _ hold]

/-- The line with the sources, among the others. -/
def fileWith (line : String) : String := joinNewlines (linesBefore ++ line :: linesAfter)

theorem splitNewlines_fileWith {line : String} (hline : '\n' ∉ line.toList) :
    splitNewlines (fileWith line) = linesBefore ++ line :: linesAfter := by
  have hafter : splitNewlines (joinNewlines linesAfter) = linesAfter := by
    apply splitNewlines_joinNewlines
    · exact List.cons_ne_nil _ _
    · have hall : linesAfter.all (fun l => decide ('\n' ∉ l.toList)) = true := by decide +kernel
      exact fun l hl => of_decide_eq_true (List.all_eq_true.mp hall l hl)
  have hne : linesAfter ≠ [] := List.cons_ne_nil _ _
  rw [fileWith, splitNewlines_append newline_linesBefore hline, if_neg hne, hafter]

theorem loads_fileWith {literal : List Char} {values : List String} (hnewline : '\n' ∉ literal)
    (h : readSource (entryLine "source" literal []) = some values) :
    sampleLoads (fileWith (entryLine "source" literal [])) = some (document values) := by
  have hlines := splitNewlines_fileWith (newline_entryLine hnewline)
  unfold sampleLoads
  simp only [hlines]
  have htake : (linesBefore ++ entryLine "source" literal [] :: linesAfter).take 5 = linesBefore := rfl
  have hdrop : (linesBefore ++ entryLine "source" literal [] :: linesAfter).drop 6 = linesAfter := rfl
  have hget : (linesBefore ++ entryLine "source" literal [] :: linesAfter)[5]? = some (entryLine "source" literal []) := rfl
  simp only [htake, hdrop, hget, true_and, if_true, Option.bind_some, h, Option.map_some]

def checks (values : List String) : Option Bool :=
  (pyprojectLists (document values)).bind (fun lists => allIn ((targets.map (Target.value "shop")).zip lists))

theorem sample_registered {line : String} {values : List String} (hline : '\n' ∉ line.toList)
    (hvalues : values.all plainText = true) (hmeant : values.map meant = values) (hne : line ≠ entryLine "source" (render values) [])
    (hedit : editLines "shop" (linesBefore ++ line :: linesAfter) =
      linesBefore ++ entryLine "source" (render values) [] :: linesAfter) (hchecks : checks values = some true) :
    registerPyproject sampleLoads "shop" (some (fileWith line)) =
      some (some (fileWith (entryLine "source" (render values) []))) := by
  have hplain := List.all_eq_true.mp hvalues
  have hnewline := newline_entryLine (render_plain hplain).2
  have hread : readSource (entryLine "source" (render values) []) = some values := (readSource_render hplain).trans (by rw [hmeant])
  have hcontent : edit "shop" (fileWith line) = fileWith (entryLine "source" (render values) []) := by
    rw [edit_eq (by decide), splitNewlines_fileWith hline, hedit, fileWith]
  have hchanged : fileWith (entryLine "source" (render values) []) ≠ fileWith line := by
    intro heq
    have hlines := congrArg splitNewlines heq
    rw [splitNewlines_fileWith hnewline, splitNewlines_fileWith hline, List.append_cancel_left_eq] at hlines
    exact hne (List.cons.inj hlines).1.symm
  obtain ⟨lists, hlists, hall⟩ := Option.bind_eq_some_iff.mp hchecks
  unfold registerPyproject
  simp only [hcontent, loads_fileWith (render_plain hplain).2 hread, hlists, hall, if_neg hchanged]

/-- Nothing but the sources is edited. -/
theorem edits_fileWith {line : String} {literal : List Char} (hline : '\n' ∉ line.toList)
    (h : targets.all (fun t => decide (editOf "shop" (linesBefore ++ line :: linesAfter) t =
      if t = .source then some (5, literal, []) else none)) = true)
    {t : Target} {i : Nat} {found tail : List Char} (hedit : editOf "shop" (splitNewlines (fileWith line)) t = some (i, found, tail)) :
    t = .source ∧ i = 5 ∧ found = literal ∧ tail = [] := by
  have hmem : t ∈ targets := by cases t <;> decide
  have ht := of_decide_eq_true (List.all_eq_true.mp h t hmem)
  rw [splitNewlines_fileWith hline, ht] at hedit
  split at hedit
  · next hsource =>
    obtain ⟨rfl, rfl, rfl⟩ : 5 = i ∧ literal = found ∧ [] = tail := by simpa using hedit
    exact ⟨hsource, rfl, rfl, rfl⟩
  · cases hedit

theorem register_only_adds_iff_formatted :
    sampleLoads (fileWith "source = [\"core\", \"shop\"]") = some (withDomain "shop" (document ["core"])) ↔
      ∀ t, Reads "shop" (document ["core"]) (splitNewlines (fileWith "source = [\"core\"]")) t := by
  have hline : "source = [\"core\"]" = entryLine "source" (render ["core"]) [] := by decide +kernel
  have hnew : "source = [\"core\", \"shop\"]" = entryLine "source" (render ["core", "shop"]) [] := by decide +kernel
  have hplain : ∀ s ∈ ["core"], plainText s = true := List.all_eq_true.mp (by decide)
  have hread := readSource_render hplain
  have hloads : sampleLoads (fileWith "source = [\"core\"]") = some (document ["core"]) := by
    rw [hline]
    exact loads_fileWith (render_plain hplain).2 hread
  have hedits : targets.all (fun t => decide (editOf "shop" (linesBefore ++ "source = [\"core\"]" :: linesAfter) t =
      if t = .source then some (5, render ["core"], []) else none)) = true := by decide +kernel
  refine register_only_adds_iff sampleLines (fileWith "source = [\"core\"]") (document ["core"]) hloads "shop" (by decide) ?_ _ ?_
  · intro t i literal tail hedit
    obtain ⟨rfl, rfl, rfl, rfl⟩ := edits_fileWith (by decide) hedits hedit
    rw [splitNewlines_fileWith (by decide)]
    have hclosed : sampleTable (linesBefore ++ [entryLine "source" (render ["core"]) []]) =
        some [.field "tool", .field "coverage", .field "run"] := by decide +kernel
    refine ⟨⟨[.field "tool", .field "coverage", .field "run"], rfl, by decide, rfl, hclosed, rfl⟩, ?_⟩
    · rw [listValues_render (by decide)]
      exact hplain
  · rw [hnew]
    exact sample_registered (by decide) (by decide) (by decide +kernel) (by decide +kernel) (by decide +kernel) (by decide +kernel)

/-- A string in single quotes is lost. -/
theorem quoted_string_lost :
    sampleLoads (fileWith "source = ['core', \"scripts\"]") = some (document ["core", "scripts"]) ∧
      registerPyproject sampleLoads "shop" (some (fileWith "source = ['core', \"scripts\"]")) =
        some (some (fileWith "source = [\"scripts\", \"shop\"]")) ∧
      sampleLoads (fileWith "source = [\"scripts\", \"shop\"]") = some (document ["scripts", "shop"]) ∧
      some (document ["scripts", "shop"]) ≠ some (withDomain "shop" (document ["core", "scripts"])) := by
  have hline : "source = ['core', \"scripts\"]" = entryLine "source" "'core', \"scripts\"".toList [] := by decide +kernel
  have hnew : "source = [\"scripts\", \"shop\"]" = entryLine "source" (render ["scripts", "shop"]) [] := by decide +kernel
  have hplain : ∀ s ∈ ["scripts", "shop"], plainText s = true := List.all_eq_true.mp (by decide)
  refine ⟨?_, ?_, ?_, ?_⟩
  · rw [hline]
    exact loads_fileWith (by decide) (by decide +kernel)
  · rw [hnew]
    exact sample_registered (by decide) (by decide) (by decide +kernel) (by decide +kernel) (by decide +kernel) (by decide +kernel)
  · rw [hnew]
    exact loads_fileWith (render_plain hplain).2 (readSource_render hplain)
  · intro heq
    have hfirst := congrArg (Option.bind · (Toml.get (Target.path (document []) .source ++ [.index 0]))) heq
    exact absurd (Toml.str.inj (Option.some.inj hfirst)) (by decide)

end FastiKit.Scaffold.Pyproject
