import Mathlib.Data.Nat.Digits.Defs

/- `repr` of a Python string, and `str` of a tuple of pairs of strings. Both can be read
   back: a text that begins with the `repr` of a string begins with that of no other
   (`reprChars_cancel`), and equal renderings are of equal pairs (`strPairs_injective`).
   Which characters outside ASCII are printable is a parameter. -/
namespace Repr

/-- The last `k` hexadecimal digits of `n`. -/
def hex : Nat → Nat → List Char
  | 0, _ => []
  | k + 1, n => hex k (n / 16) ++ [Nat.digitChar (n % 16)]

def hexValue (c : Char) : Nat := if c.toNat < 58 then c.toNat - 48 else c.toNat - 87

def readHex (cs : List Char) : Nat := cs.foldl (fun n c => n * 16 + hexValue c) 0

theorem hexValue_digitChar {d : Nat} (h : d < 16) : hexValue (Nat.digitChar d) = d := by
  have hall : ∀ d < 16, hexValue (Nat.digitChar d) = d := by decide
  exact hall d h

theorem length_hex (k n : Nat) : (hex k n).length = k := by
  induction k generalizing n with
  | zero => rfl
  | succ k ih => simp [hex, ih]

theorem readHex_hex (k n : Nat) (h : n < 16 ^ k) : readHex (hex k n) = n := by
  induction k generalizing n with
  | zero =>
    obtain rfl : n = 0 := by simpa using h
    rfl
  | succ k ih =>
    have hrest : readHex (hex k (n / 16)) = n / 16 := by
      apply ih
      rw [Nat.pow_succ] at h
      exact Nat.div_lt_of_lt_mul (by omega)
    have hdigit := hexValue_digitChar (Nat.mod_lt n (by decide : 0 < 16))
    unfold readHex at hrest ⊢
    rw [hex, List.foldl_append, hrest]
    simp only [List.foldl_cons, List.foldl_nil, hdigit]
    omega

variable (printable : Char → Bool)

/-- A character between the quotes `q`. -/
def escape (q c : Char) : List Char :=
  if c = q ∨ c = '\\' then ['\\', c]
  else if c = '\t' then ['\\', 't']
  else if c = '\n' then ['\\', 'n']
  else if c = '\r' then ['\\', 'r']
  else if c.toNat < 32 ∨ c.toNat = 127 then '\\' :: 'x' :: hex 2 c.toNat
  else if c.toNat < 127 ∨ printable c = true then [c]
  else if c.toNat < 256 then '\\' :: 'x' :: hex 2 c.toNat
  else if c.toNat < 65536 then '\\' :: 'u' :: hex 4 c.toNat
  else '\\' :: 'U' :: hex 8 c.toNat

/-- Double quotes only for a string that has single ones and no double ones. -/
def quote (s : List Char) : Char := if '\'' ∈ s ∧ '"' ∉ s then '"' else '\''

def reprChars (s : List Char) : List Char :=
  quote s :: (s.flatMap (escape printable (quote s)) ++ [quote s])

/-- `repr(s)` -/
def repr (s : String) : String := String.ofList (reprChars printable s.toList)

/-! With nothing printable outside ASCII, what is written is ASCII. -/

def isAscii (c : Char) : Bool := 32 ≤ c.toNat && c.toNat < 127

theorem ascii_hex (k n : Nat) : (hex k n).all isAscii = true := by
  have hdigit : ∀ d < 16, isAscii (Nat.digitChar d) = true := by decide
  induction k generalizing n with
  | zero => rfl
  | succ k ih => simp [hex, ih, hdigit _ (Nat.mod_lt n (by decide))]

theorem ascii_escape {q : Char} (hq : isAscii q = true) (c : Char) : (escape (fun _ => false) q c).all isAscii = true := by
  have hslash : isAscii '\\' = true := by decide
  have hcoded : ∀ k m, isAscii m = true → ('\\' :: m :: hex k c.toNat).all isAscii = true := by
    intro k m hm
    simp [hslash, hm, ascii_hex]
  unfold escape
  split
  · next h =>
    cases h with
    | inl h => simp [h, hq, hslash]
    | inr h => simp [h, hslash]
  split
  · decide
  split
  · decide
  split
  · decide
  split
  · exact hcoded _ _ (by decide)
  split
  · next hlow h =>
    have hlt : c.toNat < 127 := by simpa using h
    have hascii : isAscii c = true := by
      simp only [isAscii, Bool.and_eq_true, decide_eq_true_eq]
      omega
    simp [hascii]
  split
  · exact hcoded _ _ (by decide)
  split
  · exact hcoded _ _ (by decide)
  · exact hcoded _ _ (by decide)

theorem ascii_repr (s : String) : (repr (fun _ => false) s).toList.all isAscii = true := by
  have hquote : isAscii (quote s.toList) = true := by
    unfold quote
    split
    · decide
    · decide
  have hchars : (s.toList.flatMap (escape (fun _ => false) (quote s.toList))).all isAscii = true := by
    rw [List.all_flatMap]
    exact List.all_eq_true.mpr (fun c _ => ascii_escape hquote c)
  rw [repr, String.toList_ofList, reprChars, List.all_cons, List.all_append, hquote, hchars]
  simp [hquote]

/-! Reading back. -/

/-- How many hexadecimal digits follow this letter after a backslash. -/
def width (c : Char) : Option Nat :=
  if c = 'x' then some 2 else if c = 'u' then some 4 else if c = 'U' then some 8 else none

/-- The character a text begins with, between quotes, and the rest. -/
def next : List Char → Option (Char × List Char)
  | [] => none
  | [c] => some (c, [])
  | c :: m :: rest =>
    if c = '\\' then
      match width m with
      | some k => some (Char.ofNat (readHex (rest.take k)), rest.drop k)
      | none =>
        if m = 't' then some ('\t', rest) else if m = 'n' then some ('\n', rest)
        else if m = 'r' then some ('\r', rest) else some (m, rest)
    else some (c, m :: rest)

theorem next_plain {c : Char} (hc : c ≠ '\\') (rest : List Char) : next (c :: rest) = some (c, rest) := by
  cases rest with
  | nil => rfl
  | cons m rest => rw [next, if_neg hc]

theorem next_hex {m c : Char} {k : Nat} (hm : width m = some k) (hc : c.toNat < 16 ^ k) (rest : List Char) :
    next ('\\' :: m :: (hex k c.toNat ++ rest)) = some (c, rest) := by
  rw [next, if_pos rfl, hm]
  simp only [List.take_left' (length_hex k _), List.drop_left' (length_hex k _), readHex_hex k _ hc, Char.ofNat_toNat]

theorem toNat_lt (c : Char) : c.toNat < 16 ^ 8 := by
  exact c.val.toNat_lt

section Cancel
variable {printable} {q : Char}

theorem next_escape (hq : q = '\'' ∨ q = '"') (c : Char) (rest : List Char) :
    next (escape printable q c ++ rest) = some (c, rest) := by
  unfold escape
  split
  · next hc =>
    have hwidth : width c = none ∧ c ≠ 't' ∧ c ≠ 'n' ∧ c ≠ 'r' := by
      obtain rfl | rfl := hc
      · obtain rfl | rfl := hq
        · decide
        · decide
      · decide
    obtain ⟨hnone, ht, hn, hr⟩ := hwidth
    simp only [List.cons_append, List.nil_append, next, if_pos, hnone, if_neg ht, if_neg hn, if_neg hr]
  · next hc =>
    have hslash : c ≠ '\\' := fun heq => hc (.inr heq)
    split
    · next heq => simp [next, width, heq]
    · split
      · next heq => simp [next, width, heq]
      · split
        · next heq => simp [next, width, heq]
        · split
          · next hlow => exact next_hex (k := 2) rfl (by omega) rest
          · split
            · exact next_plain hslash rest
            · split
              · next hlow => exact next_hex (k := 2) rfl (by omega) rest
              · split
                · next hlow => exact next_hex (k := 4) rfl (by omega) rest
                · exact next_hex (k := 8) rfl (toNat_lt c) rest

variable (printable) in
/-- No character is written with the closing quote. -/
theorem escape_head (hq : q = '\'' ∨ q = '"') (c : Char) : ∃ d more, escape printable q c = d :: more ∧ d ≠ q := by
  have hslash : '\\' ≠ q := by
    obtain rfl | rfl := hq
    · decide
    · decide
  unfold escape
  split
  · exact ⟨_, _, rfl, hslash⟩
  · next hc =>
    have hne : c ≠ q := fun heq => hc (.inl heq)
    repeat' split
    all_goals first | exact ⟨_, _, rfl, hslash⟩ | exact ⟨_, _, rfl, hne⟩

theorem escaped_cancel (hq : q = '\'' ∨ q = '"') {s t u v : List Char}
    (h : s.flatMap (escape printable q) ++ q :: u = t.flatMap (escape printable q) ++ q :: v) : s = t ∧ u = v := by
  induction s generalizing t with
  | nil =>
    cases t with
    | nil => exact ⟨rfl, (List.cons.inj h).2⟩
    | cons d t =>
      obtain ⟨e, more, he, hne⟩ := escape_head printable hq d
      rw [List.flatMap_cons, he] at h
      exact absurd (List.cons.inj h).1.symm hne
  | cons c s ih =>
    cases t with
    | nil =>
      obtain ⟨e, more, he, hne⟩ := escape_head printable hq c
      rw [List.flatMap_cons, he] at h
      exact absurd (List.cons.inj h).1 hne
    | cons d t =>
      rw [List.flatMap_cons, List.flatMap_cons, List.append_assoc, List.append_assoc] at h
      have hnext := congrArg next h
      rw [next_escape hq, next_escape hq, Option.some.injEq, Prod.mk.injEq] at hnext
      obtain ⟨rfl, hrest⟩ := hnext
      obtain ⟨rfl, huv⟩ := ih hrest
      exact ⟨rfl, huv⟩

theorem quote_cases (s : List Char) : quote s = '\'' ∨ quote s = '"' := by
  unfold quote
  split
  · exact .inr rfl
  · exact .inl rfl

/-- The `repr` a text begins with is that of one string. -/
theorem reprChars_cancel {s t u v : List Char} (h : reprChars printable s ++ u = reprChars printable t ++ v) :
    s = t ∧ u = v := by
  unfold reprChars at h
  rw [List.cons_append, List.cons_append, List.cons.injEq, List.append_assoc, List.append_assoc] at h
  obtain ⟨hquote, hrest⟩ := h
  rw [← hquote] at hrest
  exact escaped_cancel (quote_cases s) hrest

end Cancel

/-! Tuples of pairs. -/

/-- `str((a, b))` -/
def strPair (p : String × String) : List Char :=
  '(' :: (reprChars printable p.1.toList ++ ',' :: ' ' :: (reprChars printable p.2.toList ++ [')']))

/-- What follows the first pair of a tuple. -/
def strTail : List (String × String) → List Char
  | [] => [')']
  | p :: rest => ',' :: ' ' :: (strPair printable p ++ strTail rest)

/-- `str(tuple(pairs))`, with the comma of a tuple of one. -/
def strPairs : List (String × String) → List Char
  | [] => ['(', ')']
  | [p] => '(' :: (strPair printable p ++ [',', ')'])
  | p :: rest => '(' :: (strPair printable p ++ strTail printable rest)

section Injective
variable {printable} {p p' : String × String}

theorem strPair_cancel {u v : List Char} (h : strPair printable p ++ u = strPair printable p' ++ v) : p = p' ∧ u = v := by
  simp only [strPair, List.cons_append, List.append_assoc, List.cons.injEq, true_and] at h
  obtain ⟨hfirst, hrest⟩ := reprChars_cancel h
  simp only [List.cons.injEq, true_and] at hrest
  obtain ⟨hsecond, hend⟩ := reprChars_cancel hrest
  refine ⟨Prod.ext (String.toList_inj.mp hfirst) (String.toList_inj.mp hsecond), ?_⟩
  exact (List.cons.inj hend).2

theorem strTail_injective {ps qs : List (String × String)} (h : strTail printable ps = strTail printable qs) : ps = qs := by
  induction ps generalizing qs with
  | nil =>
    cases qs with
    | nil => rfl
    | cons q qs => simp [strTail] at h
  | cons p ps ih =>
    cases qs with
    | nil => simp [strTail] at h
    | cons q qs =>
      simp only [strTail, List.cons.injEq, true_and] at h
      obtain ⟨rfl, hrest⟩ := strPair_cancel h
      rw [ih hrest]

/-- Equal renderings are of equal pairs. -/
theorem strPairs_injective {ps qs : List (String × String)} (h : strPairs printable ps = strPairs printable qs) : ps = qs := by
  have hopen : ∀ p : String × String, ∀ more, '(' :: (strPair printable p ++ more) ≠ ['(', ')'] := by
    intro p more heq
    simp [strPair] at heq
  match ps, qs with
  | [], [] => rfl
  | [], [q] => exact absurd h.symm (hopen q _)
  | [], q :: q' :: qs => exact absurd h.symm (hopen q _)
  | [p], [] => exact absurd h (hopen p _)
  | p :: p' :: ps, [] => exact absurd h (hopen p _)
  | [p], [q] =>
    obtain ⟨rfl, -⟩ := strPair_cancel (List.cons.inj h).2
    rfl
  | [p], q :: q' :: qs =>
    obtain ⟨-, hrest⟩ := strPair_cancel (List.cons.inj h).2
    simp [strTail] at hrest
  | p :: p' :: ps, [q] =>
    obtain ⟨-, hrest⟩ := strPair_cancel (List.cons.inj h).2
    simp [strTail] at hrest
  | p :: p' :: ps, q :: q' :: qs =>
    obtain ⟨rfl, hrest⟩ := strPair_cancel (List.cons.inj h).2
    rw [strTail_injective hrest]

end Injective

end Repr
