import Mathlib.Data.List.TakeWhile
import FastiKit.Language.Repr

/- JSON. `Json.render` writes a value in ASCII, as Python's `json.dumps` does; `Json.parse`
   reads a text by the grammar, in which a number has a form and there is no NaN. What is
   written is read back (`parse_render`). Texts are of Unicode scalar values: a half of a
   surrogate pair by itself is not read. -/
namespace Json

/-! Numbers. -/

def isDigits (cs : List Char) : Bool := cs ≠ [] && cs.all Char.isDigit

/-- No digit comes after a leading zero. -/
def isWhole (cs : List Char) : Bool := isDigits cs && (cs.head? ≠ some '0' || cs = ['0'])

def dropSign (signs cs : List Char) : List Char := if cs.head?.any (· ∈ signs) then cs.tail else cs

/-- The characters of numbers. -/
def isNumeric (c : Char) : Bool := c.isDigit || c ∈ ['-', '+', '.', 'e', 'E']

/-- A minus perhaps, the whole part, then a fraction or an exponent or both. -/
def isNumber (cs : List Char) : Bool :=
  let unsigned := dropSign ['-'] cs
  let mantissa := unsigned.takeWhile (fun c => c ≠ 'e' && c ≠ 'E')
  let exponent := unsigned.dropWhile (fun c => c ≠ 'e' && c ≠ 'E')
  let fraction := mantissa.dropWhile (· ≠ '.')
  cs.all isNumeric && isWhole (mantissa.takeWhile (· ≠ '.')) && (fraction = [] || isDigits fraction.tail) &&
    (exponent = [] || isDigits (dropSign ['-', '+'] exponent.tail))

/-- The text of a number. -/
structure Number where
  chars : List Char
  valid : isNumber chars = true
  deriving DecidableEq

end Json

/-- A JSON value; the members of an object are in order, and a name may come twice. -/
inductive Json where
  | null
  | bool (b : Bool)
  | number (n : Json.Number)
  | string (s : String)
  | array (items : List Json)
  | object (members : List (String × Json))

namespace Json

/-! Writing. -/

def escape (c : Char) : List Char :=
  if c = '"' ∨ c = '\\' then ['\\', c]
  else if c = '\n' then ['\\', 'n']
  else if c = '\r' then ['\\', 'r']
  else if c = '\t' then ['\\', 't']
  else if c = '\x08' then ['\\', 'b']
  else if c = '\x0c' then ['\\', 'f']
  else if 32 ≤ c.toNat ∧ c.toNat < 127 then [c]
  else if c.toNat < 65536 then '\\' :: 'u' :: Repr.hex 4 c.toNat
  else
    ['\\', 'u'] ++ Repr.hex 4 (55296 + (c.toNat - 65536) / 1024) ++ ['\\', 'u'] ++ Repr.hex 4 (56320 + (c.toNat - 65536) % 1024)

def quoted (s : String) : List Char := '"' :: (s.toList.flatMap escape ++ ['"'])

def comma : List Char := [',', ' ']

mutual
def render : Json → List Char
  | .null => "null".toList
  | .bool b => if b then "true".toList else "false".toList
  | .number n => n.chars
  | .string s => quoted s
  | .array items => '[' :: (renderItems [] items ++ [']'])
  | .object members => '{' :: (renderMembers [] members ++ ['}'])

/-- The items, each after a separator but the first. -/
def renderItems (before : List Char) : List Json → List Char
  | [] => []
  | item :: rest => before ++ render item ++ renderItems comma rest

def renderMembers (before : List Char) : List (String × Json) → List Char
  | [] => []
  | (name, value) :: rest => before ++ quoted name ++ [':', ' '] ++ render value ++ renderMembers comma rest
end

/-! Reading. -/

def isSpace (c : Char) : Bool := c ∈ [' ', '\t', '\n', '\r']

def skip (cs : List Char) : List Char := cs.dropWhile isSpace

def hexDigit (c : Char) : Option Nat :=
  if c.isDigit then some (c.toNat - 48)
  else if 97 ≤ c.toNat ∧ c.toNat ≤ 102 then some (c.toNat - 87)
  else if 65 ≤ c.toNat ∧ c.toNat ≤ 70 then some (c.toNat - 55)
  else none

def hex4 (a b c d : Char) : Option Nat := do
  let a ← hexDigit a
  let b ← hexDigit b
  let c ← hexDigit c
  let d ← hexDigit d
  return a * 4096 + b * 256 + c * 16 + d

def unescape (c : Char) : Option Char :=
  match c with
  | '"' => some '"'
  | '\\' => some '\\'
  | '/' => some '/'
  | 'n' => some '\n'
  | 'r' => some '\r'
  | 't' => some '\t'
  | 'b' => some '\x08'
  | 'f' => some '\x0c'
  | _ => none

/-- The rest of a string, and what comes after its closing quote. -/
def readBody : List Char → Option (List Char × List Char)
  | '"' :: rest => some ([], rest)
  | '\\' :: 'u' :: a :: b :: c :: d :: rest =>
    match hex4 a b c d with
    | none => none
    | some n =>
      if 55296 ≤ n ∧ n < 56320 then
        match rest with
        | '\\' :: 'u' :: a :: b :: c :: d :: rest =>
          match hex4 a b c d with
          | none => none
          | some low =>
            if 56320 ≤ low ∧ low < 57344 then
              (readBody rest).map (fun (s, rest) => (Char.ofNat (65536 + (n - 55296) * 1024 + (low - 56320)) :: s, rest))
            else none
        | _ => none
      else if 56320 ≤ n ∧ n < 57344 then none
      else (readBody rest).map (fun (s, rest) => (Char.ofNat n :: s, rest))
  | '\\' :: c :: rest =>
    match unescape c with
    | none => none
    | some c => (readBody rest).map (fun (s, rest) => (c :: s, rest))
  | c :: rest => if c.toNat < 32 ∨ c = '\\' then none else (readBody rest).map (fun (s, rest) => (c :: s, rest))
  | [] => none

def readString (cs : List Char) : Option (String × List Char) :=
  match cs with
  | '"' :: rest => (readBody rest).map (fun (s, rest) => (String.ofList s, rest))
  | _ => none

mutual
/-- A value, and what comes after it; nested so many times at most. -/
def readValue : Nat → List Char → Option (Json × List Char)
  | 0, _ => none
  | fuel + 1, cs =>
    match skip cs with
    | 'n' :: 'u' :: 'l' :: 'l' :: rest => some (.null, rest)
    | 't' :: 'r' :: 'u' :: 'e' :: rest => some (.bool true, rest)
    | 'f' :: 'a' :: 'l' :: 's' :: 'e' :: rest => some (.bool false, rest)
    | '"' :: rest => (readString ('"' :: rest)).map (fun (s, rest) => (.string s, rest))
    | '[' :: rest =>
      match skip rest with
      | ']' :: rest => some (.array [], rest)
      | rest => (readItems fuel rest).map (fun (found, rest) => (.array found, rest))
    | '{' :: rest =>
      match skip rest with
      | '}' :: rest => some (.object [], rest)
      | rest => (readMembers fuel rest).map (fun (found, rest) => (.object found, rest))
    | cs =>
      if h : isNumber (cs.takeWhile isNumeric) = true then some (.number ⟨_, h⟩, cs.dropWhile isNumeric) else none

/-- An item, then a comma and items or the closing bracket. -/
def readItems : Nat → List Char → Option (List Json × List Char)
  | 0, _ => none
  | fuel + 1, cs =>
    match readValue fuel cs with
    | none => none
    | some (item, rest) =>
      match skip rest with
      | ',' :: rest => (readItems fuel rest).map (fun (found, rest) => (item :: found, rest))
      | ']' :: rest => some ([item], rest)
      | _ => none

def readMembers : Nat → List Char → Option (List (String × Json) × List Char)
  | 0, _ => none
  | fuel + 1, cs =>
    match readString (skip cs) with
    | none => none
    | some (name, rest) =>
      match skip rest with
      | ':' :: rest =>
        match readValue fuel rest with
        | none => none
        | some (value, rest) =>
          match skip rest with
          | ',' :: rest => (readMembers fuel rest).map (fun (found, rest) => ((name, value) :: found, rest))
          | '}' :: rest => some ([(name, value)], rest)
          | _ => none
      | _ => none
end

/-- The value of a whole text. -/
def parse (text : List Char) : Option Json :=
  match readValue (text.length + 1) text with
  | some (value, rest) => if skip rest = [] then some value else none
  | none => none

/-! What is written is read back. -/

section Strings

theorem hexDigit_digitChar {d : Nat} (h : d < 16) : hexDigit (Nat.digitChar d) = some d := by
  have hall : ∀ d < 16, hexDigit (Nat.digitChar d) = some d := by decide
  exact hall d h

theorem hex_four (n : Nat) : Repr.hex 4 n = [Nat.digitChar (n / 16 / 16 / 16 % 16), Nat.digitChar (n / 16 / 16 % 16),
    Nat.digitChar (n / 16 % 16), Nat.digitChar (n % 16)] := rfl

theorem hex4_hex {n : Nat} (h : n < 65536) : hex4 (Nat.digitChar (n / 16 / 16 / 16 % 16)) (Nat.digitChar (n / 16 / 16 % 16))
    (Nat.digitChar (n / 16 % 16)) (Nat.digitChar (n % 16)) = some n := by
  have hdigit : ∀ m : Nat, hexDigit (Nat.digitChar (m % 16)) = some (m % 16) :=
    fun m => hexDigit_digitChar (Nat.mod_lt m (by decide))
  simp only [hex4, hdigit, Option.bind_eq_bind, Option.bind_some, Option.pure_def, Option.some.injEq]
  omega

theorem readBody_escape (c : Char) (rest : List Char) :
    readBody (escape c ++ rest) = (readBody rest).map (fun (s, rest) => (c :: s, rest)) := by
  have hvalid : c.toNat < 55296 ∨ 57343 < c.toNat ∧ c.toNat < 1114112 := c.valid
  unfold escape
  split
  · next h =>
    obtain rfl | rfl := h
    · rfl
    · rfl
  split
  · next h => rw [h]; rfl
  split
  · next h => rw [h]; rfl
  split
  · next h => rw [h]; rfl
  split
  · next h => rw [h]; rfl
  split
  · next h => rw [h]; rfl
  split
  · next hquote _ _ _ _ _ hplain =>
    rw [not_or] at hquote
    rw [List.cons_append, List.nil_append]
    have hlow : ¬ (c.toNat < 32 ∨ c = '\\') := by
      rw [not_or]
      exact ⟨by omega, hquote.2⟩
    rw [readBody.eq_def]
    split
    · next heq => exact absurd (List.cons.inj heq).1 hquote.1
    · next heq => exact absurd (List.cons.inj heq).1 hquote.2
    · next heq => exact absurd (List.cons.inj heq).1 hquote.2
    · next heq =>
      obtain ⟨rfl, rfl⟩ := List.cons.inj heq
      rw [if_neg hlow]
    · next heq => cases heq
  split
  · next hshort =>
    rw [hex_four]
    simp only [List.cons_append, List.nil_append, readBody, hex4_hex hshort]
    rw [if_neg (by omega), if_neg (by omega), Char.ofNat_toNat]
  · next hlong =>
    have hhigh : 55296 + (c.toNat - 65536) / 1024 < 56320 := by omega
    have hlow : 56320 + (c.toNat - 65536) % 1024 < 57344 := by omega
    rw [hex_four, hex_four]
    simp only [List.cons_append, List.nil_append, readBody, hex4_hex (Nat.lt_trans hhigh (by decide)),
      hex4_hex (Nat.lt_trans hlow (by decide))]
    have hback : 65536 + (55296 + (c.toNat - 65536) / 1024 - 55296) * 1024 + (56320 + (c.toNat - 65536) % 1024 - 56320) =
        c.toNat := by
      omega
    rw [if_pos ⟨by omega, hhigh⟩, if_pos ⟨by omega, hlow⟩, hback, Char.ofNat_toNat]

theorem readBody_flatMap (s rest : List Char) : readBody (s.flatMap escape ++ '"' :: rest) = some (s, rest) := by
  induction s with
  | nil => rfl
  | cons c s ih =>
    rw [List.flatMap_cons, List.append_assoc, readBody_escape, ih]
    rfl

theorem readString_quoted (s : String) (rest : List Char) : readString (quoted s ++ rest) = some (s, rest) := by
  have hbody := readBody_flatMap s.toList rest
  rw [quoted, List.cons_append, List.append_assoc, List.singleton_append, readString, hbody, Option.map_some]
  simp only [String.ofList_toList]

end Strings

section Values
variable {fuel : Nat} {rest cs : List Char}

/-- What comes after a value does not go on with a number. -/
def Stops (rest : List Char) : Prop := rest.head?.all (fun c => !isNumeric c) = true

theorem Number.cases (n : Number) : n.chars.all isNumeric = true ∧ n.chars ≠ [] := by
  have hvalid := n.valid
  simp only [isNumber, Bool.and_eq_true] at hvalid
  refine ⟨hvalid.1.1.1, ?_⟩
  intro hnil
  rw [hnil] at hvalid
  exact absurd hvalid.1.1.2 (by decide)

/-- A character that no other value begins with. -/
theorem isNumeric_cases {c : Char} (h : isNumeric c = true) : isSpace c = false ∧ c ≠ ']' ∧ c ≠ '}' ∧ c ≠ 'n' ∧ c ≠ 't' ∧ c ≠ 'f' ∧
    c ≠ '"' ∧ c ≠ '[' ∧ c ≠ '{' := by
  have hnot : ∀ d, isNumeric d = false → c ≠ d := by
    intro d hd heq
    rw [heq, hd] at h
    cases h
  refine ⟨?_, hnot _ (by decide), hnot _ (by decide), hnot _ (by decide), hnot _ (by decide), hnot _ (by decide), hnot _ (by decide),
    hnot _ (by decide), hnot _ (by decide)⟩
  have hspaces : ∀ d ∈ [' ', '\t', '\n', '\r'], c ≠ d := by
    simp only [List.forall_mem_cons]
    exact ⟨hnot _ (by decide), hnot _ (by decide), hnot _ (by decide), hnot _ (by decide), nofun⟩
  exact decide_eq_false (fun hin => hspaces c hin rfl)

/-- The first character of a value. -/
theorem render_head (j : Json) : ∃ c cs, j.render = c :: cs ∧ isSpace c = false ∧ c ≠ ']' ∧ c ≠ '}' := by
  cases j with
  | null => exact ⟨'n', _, rfl, by decide, by decide, by decide⟩
  | bool b =>
    cases b with
    | true => exact ⟨'t', _, rfl, by decide, by decide, by decide⟩
    | false => exact ⟨'f', _, rfl, by decide, by decide, by decide⟩
  | number n =>
    obtain ⟨hall, hne⟩ := n.cases
    obtain ⟨c, cs, hchars⟩ := List.exists_cons_of_ne_nil hne
    rw [hchars, List.all_cons, Bool.and_eq_true] at hall
    obtain ⟨hspace, hbracket, hbrace, -⟩ := isNumeric_cases hall.1
    exact ⟨c, cs, hchars, hspace, hbracket, hbrace⟩
  | string s => exact ⟨'"', _, rfl, by decide, by decide, by decide⟩
  | array items => exact ⟨'[', _, rfl, by decide, by decide, by decide⟩
  | object members => exact ⟨'{', _, rfl, by decide, by decide, by decide⟩

theorem readValue_number (n : Number) (hstops : Stops rest) :
    readValue (fuel + 1) (n.chars ++ rest) = some (.number n, rest) := by
  obtain ⟨hall, hne⟩ := n.cases
  have htake : (n.chars ++ rest).takeWhile isNumeric = n.chars := by
    rw [List.takeWhile_append_of_pos (List.all_eq_true.mp hall)]
    cases rest with
    | nil => simp
    | cons d more =>
      have hd : isNumeric d = false := by simpa [Stops] using hstops
      simp [hd]
  have hdrop : (n.chars ++ rest).dropWhile isNumeric = rest := by
    rw [List.dropWhile_append_of_pos (List.all_eq_true.mp hall)]
    cases rest with
    | nil => rfl
    | cons d more =>
      have hd : isNumeric d = false := by simpa [Stops] using hstops
      simp [hd]
  obtain ⟨c, cs, hchars⟩ := List.exists_cons_of_ne_nil hne
  rw [hchars, List.all_cons, Bool.and_eq_true] at hall
  obtain ⟨hspace, -, -, hn, ht, hf, hquote, hbracket, hbrace⟩ := isNumeric_cases hall.1
  have hskip : skip (n.chars ++ rest) = n.chars ++ rest := by simp [skip, hchars, hspace]
  rw [readValue, hskip]
  split
  · next heq => rw [hchars] at heq; exact absurd (List.cons.inj heq).1 hn
  · next heq => rw [hchars] at heq; exact absurd (List.cons.inj heq).1 ht
  · next heq => rw [hchars] at heq; exact absurd (List.cons.inj heq).1 hf
  · next heq => rw [hchars] at heq; exact absurd (List.cons.inj heq).1 hquote
  · next heq => rw [hchars] at heq; exact absurd (List.cons.inj heq).1 hbracket
  · next heq => rw [hchars] at heq; exact absurd (List.cons.inj heq).1 hbrace
  · simp only [htake, hdrop, n.valid, dite_true]

theorem skip_of_head {c : Char} (h : isSpace c = false) : skip (c :: cs) = c :: cs := by simp [skip, h]

theorem readValue_space : readValue fuel (' ' :: cs) = readValue fuel cs := by
  cases fuel with
  | zero => rfl
  | succ fuel => rw [readValue, readValue]; rfl

theorem readItems_space : readItems fuel (' ' :: cs) = readItems fuel cs := by
  cases fuel with
  | zero => rfl
  | succ fuel => rw [readItems, readItems, readValue_space]

theorem readMembers_space : readMembers fuel (' ' :: cs) = readMembers fuel cs := by
  cases fuel with
  | zero => rfl
  | succ fuel => rw [readMembers, readMembers]; rfl

/-- Items that begin with a value. -/
theorem readValue_array {c : Char} (hspace : isSpace c = false) (hbracket : c ≠ ']') :
    readValue (fuel + 1) ('[' :: c :: cs) = (readItems fuel (c :: cs)).map (fun (found, rest) => (.array found, rest)) := by
  have hopen : skip ('[' :: c :: cs) = '[' :: c :: cs := skip_of_head (by decide)
  rw [readValue, hopen]
  simp only [skip_of_head hspace]
  split
  · next heq => exact absurd (List.cons.inj heq).1 hbracket
  · rfl

theorem readValue_object {c : Char} (hspace : isSpace c = false) (hbrace : c ≠ '}') :
    readValue (fuel + 1) ('{' :: c :: cs) = (readMembers fuel (c :: cs)).map (fun (found, rest) => (.object found, rest)) := by
  have hopen : skip ('{' :: c :: cs) = '{' :: c :: cs := skip_of_head (by decide)
  rw [readValue, hopen]
  simp only [skip_of_head hspace]
  split
  · next heq => exact absurd (List.cons.inj heq).1 hbrace
  · rfl

theorem readItems_last {item : Json} (h : readValue fuel cs = some (item, ']' :: rest)) :
    readItems (fuel + 1) cs = some ([item], rest) := by
  rw [readItems, h]
  simp only [skip_of_head (by decide : isSpace ']' = false)]

theorem readItems_more {item : Json} (h : readValue fuel cs = some (item, comma ++ rest)) :
    readItems (fuel + 1) cs = (readItems fuel rest).map (fun (found, rest) => (item :: found, rest)) := by
  have hcomma : skip (comma ++ rest) = ',' :: ' ' :: rest := skip_of_head (by decide)
  rw [readItems, h]
  simp only [hcomma, readItems_space]

theorem readString_skip (name : String) (rest : List Char) : readString (skip (quoted name ++ rest)) = some (name, rest) := by
  have hskip : skip (quoted name ++ rest) = quoted name ++ rest := skip_of_head (by decide)
  rw [hskip, readString_quoted]

theorem readMembers_last {name : String} {value : Json} (h : readValue fuel cs = some (value, '}' :: rest)) :
    readMembers (fuel + 1) (quoted name ++ ([':', ' '] ++ cs)) = some ([(name, value)], rest) := by
  have hcolon : skip ([':', ' '] ++ cs) = ':' :: ' ' :: cs := skip_of_head (by decide)
  rw [readMembers, readString_skip]
  simp only [hcolon, readValue_space, h, skip_of_head (by decide : isSpace '}' = false)]

theorem readMembers_more {name : String} {value : Json} (h : readValue fuel cs = some (value, comma ++ rest)) :
    readMembers (fuel + 1) (quoted name ++ ([':', ' '] ++ cs)) =
      (readMembers fuel rest).map (fun (found, rest) => ((name, value) :: found, rest)) := by
  have hcolon : skip ([':', ' '] ++ cs) = ':' :: ' ' :: cs := skip_of_head (by decide)
  have hcomma : skip (comma ++ rest) = ',' :: ' ' :: rest := skip_of_head (by decide)
  rw [readMembers, readString_skip]
  simp only [hcolon, readValue_space, h, hcomma, readMembers_space]

theorem renderItems_head (before : List Char) (item : Json) (more : List Json) :
    renderItems before (item :: more) = before ++ renderItems [] (item :: more) := by
  simp [renderItems]

theorem renderMembers_head (before : List Char) (member : String × Json) (more : List (String × Json)) :
    renderMembers before (member :: more) = before ++ renderMembers [] (member :: more) := by
  simp [renderMembers]

mutual
theorem readValue_render : ∀ (j : Json) {fuel : Nat} {rest : List Char}, j.render.length < fuel → Stops rest →
    readValue fuel (j.render ++ rest) = some (j, rest)
  | _, 0, _, hfuel, _ => absurd hfuel (Nat.not_lt_zero _)
  | .null, fuel + 1, rest, _, _ => by rw [readValue]; rfl
  | .bool true, fuel + 1, rest, _, _ => by rw [readValue]; rfl
  | .bool false, fuel + 1, rest, _, _ => by rw [readValue]; rfl
  | .number n, fuel + 1, rest, _, hstops => readValue_number n hstops
  | .string s, fuel + 1, rest, _, _ => by
    have hskip : skip (quoted s ++ rest) = '"' :: (s.toList.flatMap escape ++ ['"'] ++ rest) := skip_of_head (by decide)
    have hquoted := readString_quoted s rest
    rw [quoted, List.cons_append] at hquoted
    rw [readValue, render, hskip]
    simp only [hquoted, Option.map_some]
  | .array [], fuel + 1, rest, _, _ => by rw [readValue]; rfl
  | .array (item :: more), fuel + 1, rest, hfuel, _ => by
    have hlength : (renderItems [] (item :: more)).length + 2 ≤ fuel := by
      rw [render, List.length_cons, List.length_append, List.length_singleton] at hfuel
      omega
    have hitems : readItems fuel (renderItems [] (item :: more) ++ ']' :: rest) = some (item :: more, rest) :=
      readItems_render item more hlength
    obtain ⟨c, cs, hitem, hspace, hbracket, -⟩ := render_head item
    have hchars : renderItems [] (item :: more) ++ ']' :: rest = c :: (cs ++ renderItems comma more ++ ']' :: rest) := by
      simp [renderItems, hitem]
    have hall : render (.array (item :: more)) ++ rest = '[' :: (renderItems [] (item :: more) ++ ']' :: rest) := by simp [render]
    rw [hall, hchars, readValue_array hspace hbracket, ← hchars, hitems, Option.map_some]
  | .object [], fuel + 1, rest, _, _ => by rw [readValue]; rfl
  | .object ((name, value) :: more), fuel + 1, rest, hfuel, _ => by
    have hlength : (renderMembers [] ((name, value) :: more)).length + 2 ≤ fuel := by
      rw [render, List.length_cons, List.length_append, List.length_singleton] at hfuel
      omega
    have hmembers : readMembers fuel (renderMembers [] ((name, value) :: more) ++ '}' :: rest) =
        some ((name, value) :: more, rest) := readMembers_render name value more hlength
    have hchars : renderMembers [] ((name, value) :: more) ++ '}' :: rest =
        '"' :: (name.toList.flatMap escape ++ ['"'] ++ [':', ' '] ++ value.render ++ renderMembers comma more ++ '}' :: rest) := by
      simp [renderMembers, quoted]
    have hall : render (.object ((name, value) :: more)) ++ rest =
        '{' :: (renderMembers [] ((name, value) :: more) ++ '}' :: rest) := by
      simp [render]
    rw [hall, hchars, readValue_object (by decide) (by decide), ← hchars, hmembers, Option.map_some]

theorem readItems_render : ∀ (item : Json) (more : List Json) {fuel : Nat} {rest : List Char},
    (renderItems [] (item :: more)).length + 2 ≤ fuel →
      readItems fuel (renderItems [] (item :: more) ++ ']' :: rest) = some (item :: more, rest)
  | _, _, 0, _, hfuel => absurd hfuel (Nat.not_lt_zero _)
  | item, [], fuel + 1, rest, hfuel => by
    have hlength : item.render.length < fuel := by
      rw [renderItems, List.length_append, List.length_append] at hfuel
      omega
    have hitem : readValue fuel (item.render ++ ']' :: rest) = some (item, ']' :: rest) := readValue_render item hlength rfl
    have hall : renderItems [] [item] ++ ']' :: rest = item.render ++ ']' :: rest := by simp [renderItems]
    rw [hall, readItems_last hitem]
  | item, next :: more, fuel + 1, rest, hfuel => by
    rw [renderItems, renderItems_head, List.length_append, List.length_append, List.length_append] at hfuel
    have hcomma : comma.length = 2 := rfl
    have hlength : item.render.length < fuel := by omega
    have hitem : readValue fuel (item.render ++ (comma ++ (renderItems [] (next :: more) ++ ']' :: rest))) =
        some (item, comma ++ (renderItems [] (next :: more) ++ ']' :: rest)) := readValue_render item hlength rfl
    have hmore : readItems fuel (renderItems [] (next :: more) ++ ']' :: rest) = some (next :: more, rest) :=
      readItems_render next more (by omega)
    have hall : renderItems [] (item :: next :: more) ++ ']' :: rest =
        item.render ++ (comma ++ (renderItems [] (next :: more) ++ ']' :: rest)) := by
      rw [renderItems, renderItems_head]
      simp
    rw [hall, readItems_more hitem, hmore, Option.map_some]

theorem readMembers_render : ∀ (name : String) (value : Json) (more : List (String × Json)) {fuel : Nat} {rest : List Char},
    (renderMembers [] ((name, value) :: more)).length + 2 ≤ fuel →
      readMembers fuel (renderMembers [] ((name, value) :: more) ++ '}' :: rest) = some ((name, value) :: more, rest)
  | _, _, _, 0, _, hfuel => absurd hfuel (Nat.not_lt_zero _)
  | name, value, [], fuel + 1, rest, hfuel => by
    have hlength : value.render.length < fuel := by
      rw [renderMembers, List.length_append, List.length_append] at hfuel
      omega
    have hvalue : readValue fuel (value.render ++ '}' :: rest) = some (value, '}' :: rest) := readValue_render value hlength rfl
    have hall : renderMembers [] [(name, value)] ++ '}' :: rest = quoted name ++ ([':', ' '] ++ (value.render ++ '}' :: rest)) := by
      simp [renderMembers]
    rw [hall, readMembers_last hvalue]
  | name, value, (name', value') :: more, fuel + 1, rest, hfuel => by
    have hsplit : (renderMembers [] ((name, value) :: (name', value') :: more)).length = (quoted name ++ [':', ' ']).length +
        value.render.length + (comma.length + (renderMembers [] ((name', value') :: more)).length) := by
      rw [renderMembers, renderMembers_head comma]
      simp only [List.length_append, List.length_nil, Nat.zero_add]
    have hcolon : (quoted name ++ [':', ' ']).length = (quoted name).length + 2 := List.length_append
    have hcomma : comma.length = 2 := rfl
    have hlength : value.render.length < fuel := by omega
    have hvalue : readValue fuel (value.render ++ (comma ++ (renderMembers [] ((name', value') :: more) ++ '}' :: rest))) =
        some (value, comma ++ (renderMembers [] ((name', value') :: more) ++ '}' :: rest)) := readValue_render value hlength rfl
    have hmore : readMembers fuel (renderMembers [] ((name', value') :: more) ++ '}' :: rest) =
        some ((name', value') :: more, rest) := readMembers_render name' value' more (by omega)
    have hall : renderMembers [] ((name, value) :: (name', value') :: more) ++ '}' :: rest =
        quoted name ++ ([':', ' '] ++ (value.render ++ (comma ++ (renderMembers [] ((name', value') :: more) ++ '}' :: rest)))) := by
      rw [renderMembers, renderMembers_head]
      simp
    rw [hall, readMembers_more hvalue, hmore, Option.map_some]
end

/-- A text that was written is the text of its value. -/
theorem parse_render (j : Json) : parse j.render = some j := by
  have hread : readValue (j.render.length + 1) (j.render ++ []) = some (j, []) := readValue_render j (Nat.lt_succ_self _) rfl
  rw [List.append_nil] at hread
  simp only [parse, hread]
  rfl

/-- Different values are written differently. -/
theorem render_inj {j j' : Json} (h : j.render = j'.render) : j = j' := by
  have hparse := parse_render j
  rw [h, parse_render, Option.some.injEq] at hparse
  exact hparse.symm

end Values

/-! Integers. -/

section Integers

/-- The decimal digits of an integer, after its sign. -/
def intChars (i : Int) : List Char := if i < 0 then '-' :: Nat.toDigits 10 i.natAbs else Nat.toDigits 10 i.natAbs

theorem isDigit_toDigits (n : Nat) : ∀ c ∈ Nat.toDigits 10 n, c.isDigit = true :=
  fun _ hc => Nat.isDigit_of_mem_toDigits (by decide) (by decide) hc

/-- No leading zero. -/
theorem head_toDigits {n : Nat} (h : 0 < n) : (Nat.toDigits 10 n).head? ≠ some '0' := by
  induction n using Nat.strongRecOn with
  | ind n ih =>
    by_cases hlt : n < 10
    · have hdigits : ∀ n < 10, 0 < n → [Nat.digitChar n].head? ≠ some '0' := by decide
      rw [Nat.toDigits_of_lt_base hlt]
      exact hdigits n hlt h
    · rw [Nat.toDigits_of_base_le (by decide) (by omega), List.head?_append]
      have hrest := ih (n / 10) (by omega) (by omega)
      cases hhead : (Nat.toDigits 10 (n / 10)).head? with
      | none => exact absurd (List.head?_eq_none_iff.mp hhead) Nat.toDigits_ne_nil
      | some c => rwa [hhead] at hrest

theorem isWhole_toDigits (n : Nat) : isWhole (Nat.toDigits 10 n) = true := by
  have hdigits : isDigits (Nat.toDigits 10 n) = true := by
    rw [isDigits, Bool.and_eq_true, List.all_eq_true]
    exact ⟨decide_eq_true Nat.toDigits_ne_nil, isDigit_toDigits n⟩
  rw [isWhole, hdigits, Bool.true_and, Bool.or_eq_true]
  obtain rfl | hpos := Nat.eq_zero_or_pos n
  · exact .inr rfl
  · exact .inl (by simpa using head_toDigits hpos)

/-- Digits have neither sign, fraction nor exponent. -/
theorem isNumber_digits {cs : List Char} {signs : List Char} (h : isWhole cs = true) (hsigns : signs = [] ∨ signs = ['-']) :
    isNumber (signs ++ cs) = true := by
  have hdigits : ∀ c ∈ cs, c.isDigit = true := by
    simp only [isWhole, isDigits, Bool.and_eq_true, List.all_eq_true] at h
    exact h.1.2
  have hnot : ∀ d : Char, d.isDigit = false → ∀ c ∈ cs, c ≠ d := by
    intro d hd c hc heq
    rw [← heq, hdigits c hc] at hd
    cases hd
  have hunsigned : dropSign ['-'] (signs ++ cs) = cs := by
    obtain rfl | rfl := hsigns
    · cases cs with
      | nil => rfl
      | cons c rest => simp [dropSign, hnot '-' (by decide) c List.mem_cons_self]
    · rfl
  have hmantissa : ∀ c ∈ cs, (c ≠ 'e' && c ≠ 'E') = true := by
    intro c hc
    simp [hnot 'e' (by decide) c hc, hnot 'E' (by decide) c hc]
  have hpoint : ∀ c ∈ cs, decide (c ≠ '.') = true := by
    intro c hc
    simp [hnot '.' (by decide) c hc]
  have hnumeric : (signs ++ cs).all isNumeric = true := by
    rw [List.all_append, Bool.and_eq_true, List.all_eq_true, List.all_eq_true]
    constructor
    · obtain rfl | rfl := hsigns
      · exact nofun
      · exact List.forall_mem_singleton.mpr (by decide)
    · intro c hc
      simp [isNumeric, hdigits c hc]
  simp only [isNumber, hunsigned, List.takeWhile_eq_self_iff.mpr hmantissa, List.dropWhile_eq_nil_iff.mpr hmantissa,
    List.takeWhile_eq_self_iff.mpr hpoint, List.dropWhile_eq_nil_iff.mpr hpoint, hnumeric, h]
  rfl

theorem isNumber_intChars (i : Int) : isNumber (intChars i) = true := by
  unfold intChars
  split
  · exact isNumber_digits (isWhole_toDigits _) (.inr rfl)
  · exact isNumber_digits (isWhole_toDigits _) (.inl rfl)

def Number.ofInt (i : Int) : Number := ⟨intChars i, isNumber_intChars i⟩

end Integers

end Json
