import Mathlib.Data.List.Basic

/- TOML documents as `tomllib` gives them, and what it takes to change one value of a
   document: the paths into it, and that a change at one path leaves alone what is found
   at the paths that part from it. Of the syntax there is what stands between the quotes
   of a string: each character is itself but a backslash, which begins an escape. -/

/-- A value. `other` is a number, a boolean or a time, with its text and its truth value. -/
inductive Toml where
  | str (s : String)
  | arr (items : List Toml)
  | table (fields : List (String × Toml))
  | other (truthy : Bool) (text : String)

namespace Toml

inductive Step where
  | field (name : String)
  | index (i : Nat)
  deriving DecidableEq, Repr

abbrev Path := List Step

/-- The value of the first field of this name. -/
def field (name : String) : List (String × Toml) → Option Toml
  | [] => none
  | entry :: rest => if entry.1 = name then some entry.2 else field name rest

def updateField (name : String) (f : Toml → Toml) : List (String × Toml) → List (String × Toml)
  | [] => []
  | entry :: rest => if entry.1 = name then (entry.1, f entry.2) :: rest else entry :: updateField name f rest

/-- The value a step leads to. -/
def child : Step → Toml → Option Toml
  | .field name, .table fields => field name fields
  | .index i, .arr items => items[i]?
  | _, _ => none

/-- The value a step leads to, changed. -/
def updateChild (f : Toml → Toml) : Step → Toml → Toml
  | .field name, .table fields => .table (updateField name f fields)
  | .index i, .arr items => .arr (items.modify i f)
  | _, t => t

def get : Path → Toml → Option Toml
  | [], t => some t
  | step :: path, t => (child step t).bind (get path)

def update : Path → (Toml → Toml) → Toml → Toml
  | [], f, t => f t
  | step :: path, f, t => updateChild (update path f) step t

/-- The paths lead to different places, none of them in the other. -/
def Diverge : Path → Path → Prop
  | a :: p, b :: q => a ≠ b ∨ Diverge p q
  | _, _ => False

instance decidableDiverge : (p q : Path) → Decidable (Diverge p q)
  | [], _ => .isFalse id
  | _ :: _, [] => .isFalse id
  | a :: p, b :: q => @instDecidableOr (a ≠ b) (Diverge p q) _ (decidableDiverge p q)

theorem Diverge.symm {p q : Path} (h : Diverge p q) : Diverge q p := by
  induction p generalizing q with
  | nil => exact h.elim
  | cons a p ih =>
    cases q with
    | nil => exact h.elim
    | cons b q => exact h.imp Ne.symm ih

/-! One step. -/

section Step
variable {name : String} {f g : Toml → Toml} {fields : List (String × Toml)} {step other : Step} {t v : Toml}

theorem field_updateField : field name (updateField name f fields) = (field name fields).map f := by
  induction fields with
  | nil => rfl
  | cons entry rest ih =>
    by_cases h : entry.1 = name
    · simp [updateField, field, h]
    · simp [updateField, field, h, ih]

theorem field_updateField_ne {name' : String} (hne : name' ≠ name) :
    field name' (updateField name f fields) = field name' fields := by
  induction fields with
  | nil => rfl
  | cons entry rest ih =>
    by_cases h : entry.1 = name
    · simp [updateField, field, h, Ne.symm hne]
    · simp [updateField, field, h, ih]

theorem updateField_congr (h : ∀ v, field name fields = some v → f v = g v) :
    updateField name f fields = updateField name g fields := by
  induction fields with
  | nil => rfl
  | cons entry rest ih =>
    by_cases hname : entry.1 = name
    · simp [updateField, hname, h entry.2 (by simp [field, hname])]
    · simp only [updateField, if_neg hname, ih (fun v hv => h v (by simpa [field, hname] using hv))]

theorem updateField_id (h : ∀ v, field name fields = some v → f v = v) : updateField name f fields = fields := by
  induction fields with
  | nil => rfl
  | cons entry rest ih =>
    by_cases hname : entry.1 = name
    · have hentry : f entry.2 = entry.2 := h entry.2 (by simp [field, hname])
      rw [updateField, if_pos hname, hentry]
    · rw [updateField, if_neg hname, ih (fun v hv => h v (by simpa [field, hname] using hv))]

theorem child_updateChild : child step (updateChild f step t) = (child step t).map f := by
  cases step with
  | field name =>
    cases t with
    | table fields => exact field_updateField
    | str s => rfl
    | arr items => rfl
    | other truthy text => rfl
  | index i =>
    cases t with
    | arr items => simp [child, updateChild]
    | str s => rfl
    | table fields => rfl
    | other truthy text => rfl

theorem child_updateChild_ne (hne : other ≠ step) : child other (updateChild f step t) = child other t := by
  cases step with
  | field name =>
    cases t with
    | table fields =>
      cases other with
      | field name' => exact field_updateField_ne (fun h => hne (congrArg Step.field h))
      | index i => rfl
    | str s => rfl
    | arr items => rfl
    | other truthy text => rfl
  | index i =>
    cases t with
    | arr items =>
      cases other with
      | index j =>
        have hij : i ≠ j := fun h => hne (congrArg Step.index h.symm)
        simp [child, updateChild, hij]
      | field name' => rfl
    | str s => rfl
    | table fields => rfl
    | other truthy text => rfl

theorem updateChild_congr (h : ∀ v, child step t = some v → f v = g v) : updateChild f step t = updateChild g step t := by
  cases step with
  | field name =>
    cases t with
    | table fields => exact congrArg Toml.table (updateField_congr h)
    | str s => rfl
    | arr items => rfl
    | other truthy text => rfl
  | index i =>
    cases t with
    | arr items =>
      refine congrArg Toml.arr (List.ext_getElem? (fun j => ?_))
      rw [List.getElem?_modify, List.getElem?_modify]
      by_cases hij : i = j
      · subst hij
        cases hv : items[i]? with
        | none => rfl
        | some v => simp [h v hv]
      · simp [hij]
    | str s => rfl
    | table fields => rfl
    | other truthy text => rfl

theorem updateChild_id (h : ∀ v, child step t = some v → f v = v) : updateChild f step t = t := by
  cases step with
  | field name =>
    cases t with
    | table fields => exact congrArg Toml.table (updateField_id h)
    | str s => rfl
    | arr items => rfl
    | other truthy text => rfl
  | index i =>
    cases t with
    | arr items =>
      refine congrArg Toml.arr (List.ext_getElem? (fun j => ?_))
      rw [List.getElem?_modify]
      by_cases hij : i = j
      · subst hij
        cases hv : items[i]? with
        | none => rfl
        | some v => simp [h v hv]
      · simp [hij]
    | str s => rfl
    | table fields => rfl
    | other truthy text => rfl

end Step

/-! Paths. -/

section Paths
variable {p q : Path} {f g : Toml → Toml} {t v : Toml}

theorem get_update : get p (update p f t) = (get p t).map f := by
  induction p generalizing t with
  | nil => rfl
  | cons step p ih =>
    rw [get, update, child_updateChild, get]
    cases child step t with
    | none => rfl
    | some v => exact ih

theorem get_append : get (p ++ q) t = (get p t).bind (get q) := by
  induction p generalizing t with
  | nil => rfl
  | cons step p ih =>
    rw [List.cons_append, get, get]
    cases child step t with
    | none => rfl
    | some v => exact ih

/-- A change further in is a change of what is there. -/
theorem get_update_append : get p (update (p ++ q) f t) = (get p t).map (update q f) := by
  induction p generalizing t with
  | nil => rfl
  | cons step p ih =>
    rw [List.cons_append, get, update, child_updateChild, get]
    cases child step t with
    | none => rfl
    | some v => exact ih

theorem get_update_of_diverge (h : Diverge p q) : get p (update q f t) = get p t := by
  induction p generalizing q t with
  | nil => exact h.elim
  | cons a p ih =>
    cases q with
    | nil => exact h.elim
    | cons b q =>
      rw [get, update, get]
      by_cases hab : a = b
      · subst hab
        rw [child_updateChild]
        cases child a t with
        | none => rfl
        | some v => exact ih (h.resolve_left (fun hne => hne rfl))
      · rw [child_updateChild_ne hab]

/-- What a change does depends on what is there. -/
theorem update_congr (h : ∀ v, get p t = some v → f v = g v) : update p f t = update p g t := by
  induction p generalizing t with
  | nil => exact h t rfl
  | cons step p ih =>
    refine updateChild_congr (fun v hv => ih (fun w hw => h w ?_))
    rw [get, hv]
    exact hw

theorem update_id (h : ∀ v, get p t = some v → f v = v) : update p f t = t := by
  induction p generalizing t with
  | nil => exact h t rfl
  | cons step p ih =>
    refine updateChild_id (fun v hv => ih (fun w hw => h w ?_))
    rw [get, hv]
    exact hw

end Paths

/-! Changes at several places. -/

section Changes
variable {ι : Type}

/-- A change for each of some keys. -/
def updateAll (paths : ι → Path) (fs : ι → Toml → Toml) (keys : List ι) (t : Toml) : Toml :=
  keys.foldl (fun t key => update (paths key) (fs key) t) t

variable {paths : ι → Path} {fs gs : ι → Toml → Toml} {keys : List ι} {t : Toml}

theorem updateAll_congr (h : ∀ key ∈ keys, fs key = gs key) : updateAll paths fs keys t = updateAll paths gs keys t := by
  unfold updateAll
  induction keys generalizing t with
  | nil => rfl
  | cons key rest ih =>
    rw [List.foldl_cons, List.foldl_cons, h key List.mem_cons_self]
    exact ih (fun key hin => h key (List.mem_cons_of_mem _ hin))

theorem get_updateAll_of_diverge {p : Path} (h : ∀ key ∈ keys, Diverge p (paths key)) :
    get p (updateAll paths fs keys t) = get p t := by
  unfold updateAll
  induction keys generalizing t with
  | nil => rfl
  | cons key rest ih =>
    rw [List.foldl_cons, ih (fun key hin => h key (List.mem_cons_of_mem _ hin)),
      get_update_of_diverge (h key List.mem_cons_self)]

theorem get_updateAll (hkeys : keys.Pairwise (fun a b => Diverge (paths a) (paths b))) {key : ι} (hkey : key ∈ keys) :
    get (paths key) (updateAll paths fs keys t) = (get (paths key) t).map (fs key) := by
  unfold updateAll
  induction keys generalizing t with
  | nil => cases hkey
  | cons first rest ih =>
    rw [List.pairwise_cons] at hkeys
    rw [List.foldl_cons]
    cases List.mem_cons.mp hkey with
    | inl heq =>
      rw [heq]
      have hrest : get (paths first) (updateAll paths fs rest (update (paths first) (fs first) t)) =
          get (paths first) (update (paths first) (fs first) t) := get_updateAll_of_diverge hkeys.1
      rw [updateAll] at hrest
      rw [hrest, get_update]
    | inr hin => rw [ih hkeys.2 hin, get_update_of_diverge (hkeys.1 key hin).symm]

/-- Changes at places that part are the same exactly if they are the same at each place. -/
theorem updateAll_eq_iff (hkeys : keys.Pairwise (fun a b => Diverge (paths a) (paths b))) :
    updateAll paths fs keys t = updateAll paths gs keys t ↔
      ∀ key ∈ keys, ∀ v, get (paths key) t = some v → fs key v = gs key v := by
  constructor
  · intro h key hkey v hv
    have hget := congrArg (get (paths key)) h
    rw [get_updateAll hkeys hkey, get_updateAll hkeys hkey, hv] at hget
    exact Option.some.inj hget
  · intro h
    unfold updateAll
    induction keys generalizing t with
    | nil => rfl
    | cons first rest ih =>
      rw [List.pairwise_cons] at hkeys
      rw [List.foldl_cons, List.foldl_cons, update_congr (h first List.mem_cons_self)]
      apply ih hkeys.2
      intro key hkey v hv
      rw [get_update_of_diverge (hkeys.1 key hkey).symm] at hv
      exact h key (List.mem_cons_of_mem _ hkey) v hv

end Changes

/-! Strings between double quotes, on one line. -/

/-- What comes next: a character, the letter of an escape, or digits of a code. -/
inductive Expects where
  | char
  | escape
  | digits (left code : Nat)

/-- A character that is itself. -/
def isLiteral (c : Char) : Bool := c ≠ '"' && c ≠ '\\' && (c = '\t' || 32 ≤ c.toNat) && c.toNat ≠ 127

/-- The escapes of one letter. -/
def escaped : Char → Option Char
  | 'b' => some '\x08'
  | 't' => some '\t'
  | 'n' => some '\n'
  | 'f' => some '\x0c'
  | 'r' => some '\r'
  | '"' => some '"'
  | '\\' => some '\\'
  | _ => none

def hexDigit (c : Char) : Option Nat :=
  if '0' ≤ c ∧ c ≤ '9' then some (c.toNat - 48)
  else if 'a' ≤ c ∧ c ≤ 'f' then some (c.toNat - 87)
  else if 'A' ≤ c ∧ c ≤ 'F' then some (c.toNat - 55)
  else none

/-- The character of a code. -/
def scalar (code : Nat) : Option Char := if code.isValidChar then some (Char.ofNat code) else none

/-- The characters that are meant, if the escapes are such. -/
def readChars : Expects → List Char → Option (List Char)
  | .char, [] => some []
  | .escape, [] => none
  | .digits _ _, [] => none
  | .char, c :: rest =>
    if c = '\\' then readChars .escape rest
    else if isLiteral c then (readChars .char rest).map (c :: ·)
    else none
  | .escape, c :: rest =>
    if c = 'u' then readChars (.digits 4 0) rest
    else if c = 'U' then readChars (.digits 8 0) rest
    else (escaped c).bind (fun meant => (readChars .char rest).map (meant :: ·))
  | .digits left code, c :: rest =>
    (hexDigit c).bind (fun digit =>
      if left = 1 then (scalar (16 * code + digit)).bind (fun meant => (readChars .char rest).map (meant :: ·))
      else readChars (.digits (left - 1) (16 * code + digit)) rest)

/-- The string with this text between its quotes. -/
def basicString (text : String) : Option String := (readChars .char text.toList).map String.ofList

section Strings
variable {text : String} {chars meant : List Char} {c : Char}

theorem readChars_of_literal (h : ∀ c ∈ chars, isLiteral c = true) : readChars .char chars = some chars := by
  induction chars with
  | nil => rfl
  | cons c rest ih =>
    have hc : isLiteral c = true := h c List.mem_cons_self
    have hslash : c ≠ '\\' := by
      rintro rfl
      revert hc
      decide
    rw [readChars, if_neg hslash, if_pos hc, ih (fun c hin => h c (List.mem_cons_of_mem _ hin)), Option.map_some]

/-- A text without quotes, backslashes and control characters is the string it stands for. -/
theorem basicString_of_literal (h : ∀ c ∈ text.toList, isLiteral c = true) : basicString text = some text := by
  rw [basicString, readChars_of_literal h, Option.map_some, String.ofList_toList]

/-- What is read of a text is not at the end of its line. -/
theorem readChars_cons {expects : Expects} {rest : List Char} (h : readChars expects (c :: rest) = some meant) :
    c ≠ '\n' ∧ ∃ expects' meant', readChars expects' rest = some meant' := by
  have hmap : ∀ {d : Char}, (readChars .char rest).map (d :: ·) = some meant → ∃ meant', readChars .char rest = some meant' := by
    intro d hd
    obtain ⟨meant', hread, -⟩ := Option.map_eq_some_iff.mp hd
    exact ⟨meant', hread⟩
  cases expects with
  | char =>
    rw [readChars] at h
    split at h
    · next hslash => exact ⟨by simp [hslash], .escape, meant, h⟩
    · split at h
      · next hliteral =>
        refine ⟨?_, .char, hmap h⟩
        rintro rfl
        revert hliteral
        decide
      · cases h
  | escape =>
    rw [readChars] at h
    split at h
    · next hu => exact ⟨by simp [hu], .digits 4 0, meant, h⟩
    · split at h
      · next hU => exact ⟨by simp [hU], .digits 8 0, meant, h⟩
      · obtain ⟨d, hescaped, hrest⟩ := Option.bind_eq_some_iff.mp h
        refine ⟨?_, .char, hmap hrest⟩
        rintro rfl
        cases hescaped
  | digits left code =>
    rw [readChars] at h
    obtain ⟨digit, hdigit, hrest⟩ := Option.bind_eq_some_iff.mp h
    refine ⟨?_, ?_⟩
    · rintro rfl
      revert hdigit
      simp [hexDigit]
    · split at hrest
      · obtain ⟨d, -, hchars⟩ := Option.bind_eq_some_iff.mp hrest
        exact ⟨.char, hmap hchars⟩
      · exact ⟨_, meant, hrest⟩

theorem newline_readChars {expects : Expects} (h : readChars expects chars = some meant) : '\n' ∉ chars := by
  induction chars generalizing expects meant with
  | nil => simp
  | cons c rest ih =>
    obtain ⟨hc, expects', meant', hrest⟩ := readChars_cons h
    simp only [List.mem_cons, not_or]
    exact ⟨hc.symm, ih hrest⟩

theorem newline_basicString (h : (basicString text).isSome = true) : '\n' ∉ text.toList := by
  obtain ⟨meant, hmeant⟩ := Option.isSome_iff_exists.mp h
  obtain ⟨chars, hread, -⟩ := Option.map_eq_some_iff.mp hmeant
  exact newline_readChars hread

end Strings

end Toml
