import FastiKit.Scaffold.Names

/- Which of the accepted names are names of Python. The regular expression of a domain
   and an entity lets a last newline through and knows no keywords, and nothing looks at
   the name of a field; a capital is all that keeps most Pascal forms from being
   keywords (`pascal_keyword_iff`). -/
namespace FastiKit.Scaffold
open Words

/-- `keyword.kwlist` -/
def keywords : List String :=
  ["False", "None", "True", "and", "as", "assert", "async", "await", "break", "class", "continue", "def", "del", "elif",
    "else", "except", "finally", "for", "from", "global", "if", "import", "in", "is", "lambda", "nonlocal", "not", "or",
    "pass", "raise", "return", "try", "while", "with", "yield"]

/-- The characters outside ASCII that begin and continue an identifier. -/
structure XId where
  start : Char → Bool
  cont : Char → Bool

variable (xid : XId)

def startsIdentifier (c : Char) : Bool := if c.toNat < 128 then c.isAlpha || c = '_' else xid.start c

def continuesIdentifier (c : Char) : Bool := if c.toNat < 128 then c.isAlphanum || c = '_' else xid.cont c

/-- `s.isidentifier()` -/
def isPythonIdentifier (s : String) : Bool :=
  match s.toList with
  | [] => false
  | c :: rest => startsIdentifier xid c && rest.all (continuesIdentifier xid)

/-- A name Python can bind. -/
def Legal (s : String) : Prop := isPythonIdentifier xid s = true ∧ s ∉ keywords

/-- The names of the fields as they are written, the base fields left out. -/
def writtenNames (fields : String) : List String :=
  (((((fields.toList.splitOn ',').map strip).filter (· ≠ [])).map
    (fun item => String.ofList (strip ((item.takeWhile (· ≠ '=')).takeWhile (· ≠ ':'))))).filter (· ∉ baseFields))

/-- What a name needs besides being accepted. -/
structure Sound (domain name fields : String) : Prop where
  domain_end : domain.toList.getLast? ≠ some '\n'
  domain_word : domain ∉ keywords
  name_end : (toSnakeCase name).toList.getLast? ≠ some '\n'
  name_word : toSnakeCase name ∉ keywords
  name_constant : toSnakeCase name ∉ ["none", "true", "false"]
  fields_legal : ∀ written ∈ writtenNames fields, Legal xid written
  fields_distinct : (writtenNames fields).Nodup

variable {xid}

/-! The names that match the regular expression. -/

section Matches
variable {s : String}

/-- What matches is an identifier in lower case, with at most a newline after it. -/
theorem matches_cases (h : matchesIdentifier s = true) : ∃ c rest, s.toList = c :: rest ∧ c.isLower = true ∧
    (rest.all isIdentifierChar = true ∨ ∃ init, rest = init ++ ['\n'] ∧ init.all isIdentifierChar = true) := by
  unfold matchesIdentifier at h
  split at h
  · cases h
  · next c rest hs =>
    simp only [Bool.and_eq_true, Bool.or_eq_true, decide_eq_true_eq] at h
    refine ⟨c, rest, hs, h.1, h.2.imp_right ?_⟩
    intro hend
    have hrest := List.dropLast_append_getLast? '\n' hend.1
    exact ⟨rest.dropLast, hrest.symm, hend.2⟩

/-- Without the newline nothing is left but the identifier. -/
theorem matches_plain (h : matchesIdentifier s = true) (hend : s.toList.getLast? ≠ some '\n') :
    ∃ c rest, s.toList = c :: rest ∧ c.isLower = true ∧ rest.all isIdentifierChar = true := by
  obtain ⟨c, rest, hs, hc, hrest | ⟨init, hinit, -⟩⟩ := matches_cases h
  · exact ⟨c, rest, hs, hc, hrest⟩
  · rw [hs, hinit, ← List.cons_append, List.getLast?_concat] at hend
    exact absurd rfl hend

theorem starts_of_isLower {c : Char} (h : c.isLower = true) : startsIdentifier xid c = true := by
  have hascii : c.toNat < 128 := by have := isLower_iff.mp h; omega
  simp [startsIdentifier, hascii, Char.isAlpha, h]

theorem continues_of_identifierChar {c : Char} (h : isIdentifierChar c = true) : continuesIdentifier xid c = true := by
  have hascii : c.toNat < 128 := by
    simp only [isIdentifierChar, Bool.or_eq_true, decide_eq_true_eq] at h
    obtain (hlower | hdigit) | rfl := h
    · have := isLower_iff.mp hlower; omega
    · have := isDigit_iff.mp hdigit; omega
    · decide
  simp only [isIdentifierChar, Bool.or_eq_true] at h
  simp only [continuesIdentifier, hascii, if_true, Char.isAlphanum, Char.isAlpha, Bool.or_eq_true]
  tauto

theorem isPythonIdentifier_of_matches (h : matchesIdentifier s = true) (hend : s.toList.getLast? ≠ some '\n') :
    isPythonIdentifier xid s = true := by
  obtain ⟨c, rest, hs, hc, hrest⟩ := matches_plain h hend
  rw [isPythonIdentifier, hs]
  simp only [Bool.and_eq_true, List.all_eq_true] at hrest ⊢
  exact ⟨starts_of_isLower hc, fun d hd => continues_of_identifierChar (hrest d hd)⟩

/-- A newline is in no identifier. -/
theorem not_legal_of_newline (h : s.toList.getLast? = some '\n') : isPythonIdentifier xid s = false := by
  have hnot : continuesIdentifier xid '\n' = false := by simp [continuesIdentifier]
  have hstart : startsIdentifier xid '\n' = false := by simp [startsIdentifier]
  unfold isPythonIdentifier
  split
  · rfl
  · next c rest hs =>
    rw [hs] at h
    cases List.eq_nil_or_concat rest with
    | inl hnil =>
      rw [hnil] at h
      obtain rfl : c = '\n' := by simpa using h
      simp [hstart]
    | inr hconcat =>
      obtain ⟨init, last, rfl⟩ := hconcat
      rw [List.concat_eq_append, ← List.cons_append, List.getLast?_concat] at h
      obtain rfl : last = '\n' := by simpa using h
      simp [hnot]

theorem legal_iff_of_matches (h : matchesIdentifier s = true) :
    Legal xid s ↔ s.toList.getLast? ≠ some '\n' ∧ s ∉ keywords := by
  constructor
  · intro hlegal
    refine ⟨?_, hlegal.2⟩
    intro hend
    have hident := hlegal.1
    rw [not_legal_of_newline hend] at hident
    cases hident
  · intro hends
    exact ⟨isPythonIdentifier_of_matches h hends.1, hends.2⟩

end Matches

/-! The Pascal form, read from left to right. -/

/-- What is left of a name in Pascal form; `up` if a word begins here. -/
def pascal (up : Bool) : List Char → List Char
  | [] => []
  | c :: rest => if c = '_' then pascal true rest else (if up then c.toUpper else lower c) :: pascal false rest

theorem capitalize_append_pascal (fields : List (List Char)) (first : List Char) :
    ∀ s, s.splitOnP isUnderscore = first :: fields →
      pascal true s = capitalize first ++ fields.flatMap capitalize ∧
        pascal false s = first.map lower ++ fields.flatMap capitalize := by
  intro s
  induction s generalizing first fields with
  | nil =>
    intro h
    rw [List.splitOnP_nil, List.cons.injEq] at h
    obtain ⟨rfl, rfl⟩ := h
    exact ⟨rfl, rfl⟩
  | cons c rest ih =>
    intro h
    rw [List.splitOnP_cons_eq_if_modifyHead] at h
    by_cases hc : c = '_'
    · rw [if_pos (by simp [isUnderscore, hc]), List.cons.injEq] at h
      obtain ⟨rfl, hfields⟩ := h
      cases fields with
      | nil => exact absurd hfields (List.splitOnP_ne_nil _ _)
      | cons next others =>
        have hrest := (ih others next hfields).1
        simp [pascal, hc, hrest, capitalize]
    · rw [if_neg (by simp [isUnderscore, hc])] at h
      cases hsplit : rest.splitOnP isUnderscore with
      | nil => exact absurd hsplit (List.splitOnP_ne_nil _ _)
      | cons next others =>
        rw [hsplit, List.modifyHead_cons, List.cons.injEq] at h
        obtain ⟨rfl, rfl⟩ := h
        have hrest := (ih others next hsplit).2
        simp [pascal, hc, hrest, capitalize]

theorem toPascalCase_eq (name : String) : toPascalCase name = String.ofList (pascal true (toSnakeCase name).toList) := by
  rw [toPascalCase]
  cases hsplit : (toSnakeCase name).toList.splitOnP isUnderscore with
  | nil => exact absurd hsplit (List.splitOnP_ne_nil _ _)
  | cons first others =>
    rw [(capitalize_append_pascal others first _ hsplit).1, List.flatMap_cons]

/-- A name does not end in an underscore. -/
theorem toSnakeCase_end (name : String) : (toSnakeCase name).toList.getLast? ≠ some '_' := by
  rw [toSnakeCase, String.toList_ofList, stripUnderscores]
  intro hlast
  generalize List.dropWhile isUnderscore _ = s at hlast
  have hne : s.rdropWhile isUnderscore ≠ [] := by
    intro hnil
    rw [hnil] at hlast
    cases hlast
  have hnot := List.rdropWhile_last_not isUnderscore s hne
  rw [List.getLast?_eq_some_getLast hne, Option.some.injEq] at hlast
  rw [hlast] at hnot
  exact hnot (by decide)

section Pascal
variable {s : List Char}

def letters : List Char := (List.range 26).map (fun i => Char.ofNat (97 + i))

theorem mem_letters {c : Char} (h : c.isLower = true) : c ∈ letters := by
  obtain ⟨hlo, hhi⟩ := isLower_iff.mp h
  refine List.mem_map.mpr ⟨c.toNat - 97, List.mem_range.mpr (by omega), ?_⟩
  rw [Nat.add_sub_cancel' hlo, Char.ofNat_toNat]

theorem toUpper_of_isLower {c : Char} (h : c.isLower = true) :
    c.toUpper.isLower = false ∧ c.toUpper.toLower = c ∧ c.toUpper.isAlpha = true ∧ c.toUpper.toNat < 128 := by
  have hall : letters.all (fun c => !c.toUpper.isLower && c.toUpper.toLower == c && c.toUpper.isAlpha &&
      decide (c.toUpper.toNat < 128)) = true := by
    decide +kernel
  simpa [and_assoc] using List.all_eq_true.mp hall c (mem_letters h)

theorem toUpper_of_not_lower {c : Char} (h : c.isLower = false) : c.toUpper = c := by
  rw [Char.toUpper, dif_neg]
  intro hrange
  have hlower : c.isLower = true := by simpa [Char.isLower] using hrange
  rw [h] at hlower
  cases hlower

theorem toLower_of_not_upper {c : Char} (h : ¬ c.isUpper = true) : c.toLower = c := by
  rw [Char.toLower, dif_neg]
  intro hrange
  exact h (by simpa [Char.isUpper] using hrange)

theorem not_upper_of_identifierChar {c : Char} (h : isIdentifierChar c = true) : ¬ c.isUpper = true ∧ c ≠ '\u212a' := by
  simp only [isIdentifierChar, Bool.or_eq_true, decide_eq_true_eq] at h
  have hrange : 48 ≤ c.toNat ∧ c.toNat ≤ 57 ∨ c.toNat = 95 ∨ 97 ≤ c.toNat ∧ c.toNat ≤ 122 := by
    obtain (hlower | hdigit) | rfl := h
    · exact .inr (.inr (isLower_iff.mp hlower))
    · exact .inl (isDigit_iff.mp hdigit)
    · exact .inr (.inl rfl)
  constructor
  · intro hupper
    have := isUpper_iff.mp hupper
    omega
  · intro heq
    have hkelvin : c.toNat = 8490 := by rw [heq]; rfl
    omega

theorem lower_eq {c : Char} (h : isIdentifierChar c = true) : lower c = c := by
  obtain ⟨hupper, hkelvin⟩ := not_upper_of_identifierChar h
  rw [lower, if_neg hkelvin, toLower_of_not_upper hupper]

theorem continues_pascal (up : Bool) (hs : s.all isIdentifierChar = true) :
    (pascal up s).all (continuesIdentifier xid) = true := by
  induction s generalizing up with
  | nil => rfl
  | cons c rest ih =>
    rw [List.all_cons, Bool.and_eq_true] at hs
    by_cases hc : c = '_'
    · rw [pascal, if_pos hc]
      exact ih true hs.2
    · rw [pascal, if_neg hc, List.all_cons, Bool.and_eq_true]
      refine ⟨?_, ih false hs.2⟩
      cases up with
      | false =>
        simp only [Bool.false_eq_true, if_false, lower_eq hs.1]
        exact continues_of_identifierChar hs.1
      | true =>
        rw [if_pos rfl]
        cases hlower : c.isLower with
        | true =>
          obtain ⟨-, -, halpha, hascii⟩ := toUpper_of_isLower hlower
          simp [continuesIdentifier, hascii, Char.isAlphanum, halpha]
        | false =>
          rw [toUpper_of_not_lower hlower]
          exact continues_of_identifierChar hs.1

/-- A word begins with no small letter. -/
theorem pascal_true_lower (hs : s.all isIdentifierChar = true) (h : ∀ c ∈ pascal true s, c.isLower = true) :
    ∀ c ∈ s, c = '_' := by
  induction s with
  | nil => exact nofun
  | cons c rest ih =>
    rw [List.all_cons, Bool.and_eq_true] at hs
    by_cases hc : c = '_'
    · rw [pascal, if_pos hc] at h
      intro d hd
      cases List.mem_cons.mp hd with
      | inl heq => exact heq.trans hc
      | inr hin => exact ih hs.2 h d hin
    · rw [pascal, if_neg hc, if_pos rfl] at h
      exact absurd (h _ List.mem_cons_self) (by simp)

/-- Small letters only: nothing of the name was changed. -/
theorem pascal_false_lower (hs : s.all isIdentifierChar = true) (hend : s.getLast? ≠ some '_')
    (h : ∀ c ∈ pascal false s, c.isLower = true) : pascal false s = s := by
  induction s with
  | nil => rfl
  | cons c rest ih =>
    rw [List.all_cons, Bool.and_eq_true] at hs
    by_cases hc : c = '_'
    · rw [pascal, if_pos hc] at h
      have hall := pascal_true_lower hs.2 h
      refine absurd ?_ hend
      rw [List.getLast?_eq_some_getLast (List.cons_ne_nil _ _), Option.some.injEq]
      cases List.mem_cons.mp (List.getLast_mem (List.cons_ne_nil c rest)) with
      | inl heq => exact heq.trans hc
      | inr hin => exact hall _ hin
    · rw [pascal, if_neg hc] at h ⊢
      have hrest : rest.getLast? ≠ some '_' := by
        intro hlast
        apply hend
        cases rest with
        | nil => cases hlast
        | cons d more => rwa [List.getLast?_cons_cons]
      rw [ih hs.2 hrest (fun d hd => h d (List.mem_cons_of_mem _ hd))]
      simp [lower_eq hs.1]

/-- The Pascal form of a name, letter by letter. -/
theorem pascal_of_matches {c : Char} {rest : List Char} (hc : c.isLower = true) :
    pascal true (c :: rest) = c.toUpper :: pascal false rest := by
  have hne : c ≠ '_' := by
    intro heq
    rw [heq] at hc
    exact absurd hc (by decide)
  rw [pascal, if_neg hne, if_pos rfl]

theorem pascal_false_eq {c : Char} {rest : List Char} (d : Char) (more : List Char) (hc : c.isLower = true) (hrest : rest.all isIdentifierChar = true)
    (hend : (c :: rest).getLast? ≠ some '_') (hmore : more.all Char.isLower = true)
    (h : pascal true (c :: rest) = d :: more) : c :: rest = d.toLower :: more := by
  rw [pascal_of_matches hc, List.cons.injEq] at h
  have hlast : rest.getLast? ≠ some '_' := by
    intro hlast
    apply hend
    cases rest with
    | nil => cases hlast
    | cons d more => rwa [List.getLast?_cons_cons]
  have hlower : ∀ d ∈ pascal false rest, d.isLower = true := by
    rw [h.2]
    exact List.all_eq_true.mp hmore
  rw [pascal_false_lower hrest hlast hlower] at h
  rw [← h.1, h.2, (toUpper_of_isLower hc).2.1]

/-- The Pascal form is a keyword only where it is one of the constants. -/
theorem pascal_keyword_iff {c : Char} {rest : List Char} (hc : c.isLower = true) (hrest : rest.all isIdentifierChar = true)
    (hend : (c :: rest).getLast? ≠ some '_') :
    String.ofList (pascal true (c :: rest)) ∈ keywords ↔ String.ofList (c :: rest) ∈ ["none", "true", "false"] := by
  constructor
  · intro hkeyword
    obtain ⟨word, hword, heq⟩ : ∃ word ∈ keywords, word.toList = pascal true (c :: rest) :=
      ⟨_, hkeyword, String.toList_ofList⟩
    have hcapital : word.toList.head?.any Char.isLower = false := by
      rw [heq, pascal_of_matches hc]
      simp
    have hconstant : word ∈ ["False", "None", "True"] := by
      have hall : ∀ word ∈ keywords, word.toList.head?.any Char.isLower = false → word ∈ ["False", "None", "True"] := by
        decide +kernel
      exact hall word hword hcapital
    simp only [List.mem_cons, List.not_mem_nil, or_false] at hconstant
    obtain rfl | rfl | rfl := hconstant
    · have := pascal_false_eq 'F' ['a', 'l', 's', 'e'] hc hrest hend (by decide) heq.symm
      simp [this]
    · have := pascal_false_eq 'N' ['o', 'n', 'e'] hc hrest hend (by decide) heq.symm
      simp [this]
    · have := pascal_false_eq 'T' ['r', 'u', 'e'] hc hrest hend (by decide) heq.symm
      simp [this]
  · intro hname
    have hchars : c :: rest = ['n', 'o', 'n', 'e'] ∨ c :: rest = ['t', 'r', 'u', 'e'] ∨ c :: rest = ['f', 'a', 'l', 's', 'e'] := by
      simpa [← String.toList_inj] using hname
    obtain h | h | h := hchars
    · rw [h]
      decide +kernel
    · rw [h]
      decide +kernel
    · rw [h]
      decide +kernel

end Pascal

/-! The names of the fields. -/

theorem splitOn_head (sep : Char) (s : List Char) : (s.splitOn sep).head? = some (s.takeWhile (· ≠ sep)) := by
  unfold List.splitOn
  induction s with
  | nil => rfl
  | cons c rest ih =>
    rw [List.splitOnP_cons_eq_if_modifyHead]
    by_cases hc : c = sep
    · simp [hc]
    · rw [if_neg (by simpa using hc)]
      cases hsplit : rest.splitOnP (· == sep) with
      | nil => exact absurd hsplit (List.splitOnP_ne_nil _ _)
      | cons first others =>
        rw [hsplit, List.head?_cons, Option.some.injEq] at ih
        simp [hc, ih]

/-- The name of an item that is accepted is written before its colon. -/
theorem parseField_name {item : List Char} {field : Option Field} (h : parseField item = .ok field) :
    (field.map Field.name).toList =
      [String.ofList (strip ((item.takeWhile (· ≠ '=')).takeWhile (· ≠ ':')))].filter (· ∉ baseFields) := by
  have hhead := splitOn_head ':' (item.takeWhile (· ≠ '='))
  unfold parseField at h
  simp only at h
  split at h
  · next name type hsplit =>
    rw [hsplit, List.head?_cons, Option.some.injEq] at hhead
    rw [← hhead]
    split at h
    · next hbase =>
      obtain rfl := Except.ok.inj h
      simp [hbase]
    · next hbase =>
      obtain rfl := Except.ok.inj h
      simp [hbase]
  · cases h
  · cases h

theorem parseItems_names {items : List (List Char)} {fields : List Field} (h : parseItems items = .ok fields) :
    fields.map Field.name = (((items.map strip).filter (· ≠ [])).map
      (fun item => String.ofList (strip ((item.takeWhile (· ≠ '=')).takeWhile (· ≠ ':'))))).filter (· ∉ baseFields) := by
  induction items generalizing fields with
  | nil =>
    obtain rfl := Except.ok.inj h
    rfl
  | cons item rest ih =>
    rw [parseItems] at h
    split at h
    · next hempty =>
      rw [ih h]
      simp [hempty]
    · next hitem =>
      have hsplit : ((item :: rest).map strip).filter (· ≠ []) = strip item :: (rest.map strip).filter (· ≠ []) := by
        simp [hitem]
      rw [hsplit, List.map_cons, ← List.singleton_append, List.filter_append]
      split at h
      · cases h
      · next hbase =>
        rw [ih h, ← parseField_name hbase]
        rfl
      · next field hfield =>
        split at h
        · cases h
        · next others hothers =>
          obtain rfl := Except.ok.inj h
          rw [List.map_cons, ih hothers, ← parseField_name hfield]
          rfl

theorem parseFields_names {fields : String} {parsed : List Field} (h : parseFields fields = .ok parsed) :
    parsed.map Field.name = writtenNames fields := by
  unfold parseFields at h
  split at h
  · next hempty =>
    obtain rfl := Except.ok.inj h
    rw [hempty]
    rfl
  · rw [parseItems_names h, writtenNames]

/-! The three validators together. -/

theorem resolveNames_ok {domain name snake pascalName : String} (h : resolveNames domain name = .ok (snake, pascalName)) :
    matchesIdentifier domain = true ∧ domain ∉ reservedDomains ∧ matchesIdentifier (toSnakeCase name) = true ∧
      snake = toSnakeCase name ∧ pascalName = toPascalCase name := by
  unfold resolveNames validateDomain at h
  split at h
  · cases h
  · next hvalid =>
    split at hvalid
    · cases hvalid
    · next hdomain =>
      split at hvalid
      · cases hvalid
      · next hreserved =>
        split at h
        · cases h
        · next hname =>
          obtain ⟨rfl, rfl⟩ := Prod.mk.inj (Except.ok.inj h)
          exact ⟨by simpa using hdomain, hreserved, by simpa using hname, rfl, rfl⟩

/-- The Pascal form of an accepted name. -/
theorem legal_toPascalCase_iff {name : String} (h : matchesIdentifier (toSnakeCase name) = true)
    (hend : (toSnakeCase name).toList.getLast? ≠ some '\n') :
    Legal xid (toPascalCase name) ↔ toSnakeCase name ∉ ["none", "true", "false"] := by
  obtain ⟨c, rest, hs, hc, hrest⟩ := matches_plain h hend
  have hlast := toSnakeCase_end name
  have hsnake : toSnakeCase name = String.ofList (c :: rest) := by rw [← hs, String.ofList_toList]
  rw [hs] at hlast
  rw [toPascalCase_eq, hs, hsnake, Legal, not_congr (pascal_keyword_iff hc hrest hlast), and_iff_right]
  obtain ⟨-, -, halpha, hascii⟩ := toUpper_of_isLower hc
  rw [isPythonIdentifier, String.toList_ofList, pascal_of_matches hc]
  simp [startsIdentifier, hascii, halpha, continues_pascal false hrest]

/-- Accepted names are legal exactly where they are sound. -/
theorem accepted_legal_iff {domain name fields snake pascalName : String} {parsed : List Field}
    (hnames : resolveNames domain name = .ok (snake, pascalName)) (hfields : parseFields fields = .ok parsed) :
    (Legal xid domain ∧ Legal xid snake ∧ Legal xid pascalName ∧ (∀ field ∈ parsed, Legal xid field.name) ∧
      domain ∉ reservedDomains ∧ (parsed.map Field.name).Nodup) ↔ Sound xid domain name fields := by
  obtain ⟨hdomain, hreserved, hname, rfl, rfl⟩ := resolveNames_ok hnames
  have hparsed := parseFields_names hfields
  have hall : (∀ field ∈ parsed, Legal xid field.name) ↔ ∀ written ∈ writtenNames fields, Legal xid written := by
    rw [← hparsed, List.forall_mem_map]
  rw [hall, hparsed, legal_iff_of_matches hdomain, legal_iff_of_matches hname]
  constructor
  · intro h
    obtain ⟨hd, hs, hp, hf, -, hn⟩ := h
    exact ⟨hd.1, hd.2, hs.1, hs.2, (legal_toPascalCase_iff hname hs.1).mp hp, hf, hn⟩
  · intro h
    exact ⟨⟨h.domain_end, h.domain_word⟩, ⟨h.name_end, h.name_word⟩,
      (legal_toPascalCase_iff hname h.name_end).mpr h.name_constant, h.fields_legal, hreserved, h.fields_distinct⟩

/-- No letters but those of ASCII. -/
def asciiOnly : XId := ⟨fun _ => false, fun _ => false⟩

theorem accepted_legal_iff_item :
    (Legal asciiOnly "shop" ∧ Legal asciiOnly "my_item" ∧ Legal asciiOnly "MyItem" ∧
      (∀ field ∈ [Field.mk "n" "int" (some "1") "int" "Integer"], Legal asciiOnly field.name) ∧
      "shop" ∉ reservedDomains ∧ ([Field.mk "n" "int" (some "1") "int" "Integer"].map Field.name).Nodup) ↔
      Sound asciiOnly "shop" "MyItem" "n:int=1" :=
  accepted_legal_iff (by decide +kernel) (by decide +kernel)

/-- A keyword is accepted as a domain, as a name in its own right, and as a field. -/
theorem keywords_accepted :
    resolveNames "class" "none" = .ok ("none", "None") ∧
      (parseFields "from:str").map (List.map Field.name) = .ok ["from"] ∧
      ¬ Legal asciiOnly "class" ∧ ¬ Legal asciiOnly "None" ∧ ¬ Legal asciiOnly "from" := by
  refine ⟨by decide +kernel, by decide +kernel, ?_, ?_, ?_⟩
  · exact fun h => h.2 (by decide +kernel)
  · exact fun h => h.2 (by decide +kernel)
  · exact fun h => h.2 (by decide +kernel)

end FastiKit.Scaffold
