import FastiKit.Language.Repr
import FastiKit.Language.SmallParser

/- A parser of modules that have a statement to a line, each line read by itself, and a
   reader of such lines: imports of plain names, and a list of strings assigned to
   `__all__`. A parser by lines is lawful whatever it reads in them. -/
namespace Ast
open Lines

/-- What is read in some lines, the first of them line `n`. -/
def readLines (read : List Char → Option (List Stmt)) (n : Nat) : List String → Option (List Node)
  | [] => some []
  | line :: rest =>
    match read line.toList, readLines read (n + 1) rest with
    | some here, some later => some (here.map (fun stmt => ⟨stmt, n⟩) ++ later)
    | _, _ => none

def lineParser (read : List Char → Option (List Stmt)) : Parser := fun text => readLines read 1 (splitlines text)

section Lawful
variable {read : List Char → Option (List Stmt)}

def stmtsOf (read : List Char → Option (List Stmt)) : List String → Option (List Stmt)
  | [] => some []
  | line :: rest => (read line.toList).bind (fun here => (stmtsOf read rest).map (here ++ ·))

theorem stmts_readLines (n : Nat) (lines : List String) :
    (readLines read n lines).map (List.map Node.stmt) = stmtsOf read lines := by
  induction lines generalizing n with
  | nil => rfl
  | cons line rest ih =>
    rw [readLines, stmtsOf, ← ih (n + 1)]
    cases read line.toList with
    | none => rfl
    | some here =>
      cases readLines read (n + 1) rest with
      | none => rfl
      | some later => simp [Function.comp_def]

theorem body_lineParser (text : String) : body (lineParser read) text = stmtsOf read (splitlines text) := stmts_readLines 1 _

theorem stmtsOf_append (xs ys : List String) :
    stmtsOf read (xs ++ ys) = (stmtsOf read xs).bind (fun A => (stmtsOf read ys).map (A ++ ·)) := by
  induction xs with
  | nil => simp [stmtsOf]
  | cons line rest ih =>
    rw [List.cons_append, stmtsOf, stmtsOf, ih]
    cases read line.toList with
    | none => rfl
    | some here =>
      cases stmtsOf read rest with
      | none => rfl
      | some later => simp [Option.map_map, Function.comp_def]

theorem lineParser_lawful (hempty : read [] = some []) : Lawful (lineParser read) := by
  constructor
  · intro a b A B ha hb
    rw [body_lineParser] at ha hb ⊢
    rw [splitlines_append, stmtsOf_append, ha, hb]
    rfl
  · intro a A ha
    rw [body_lineParser] at ha ⊢
    cases splitlines_newline a with
    | inl h =>
      rw [h]
      exact ha
    | inr h =>
      have hblank : stmtsOf read [""] = some [] := by
        rw [stmtsOf, String.toList_empty, hempty]
        rfl
      rw [h, stmtsOf_append, ha, hblank]
      simp

/-- A text of one line. -/
theorem body_line {line : String} (hplain : Plain line.toList) (hne : line ≠ "") : body (lineParser read) line = read line.toList := by
  rw [body_lineParser, splitlines_line hplain hne, stmtsOf, stmtsOf]
  cases read line.toList with
  | none => rfl
  | some here => simp

/-- One line that is not read, and nothing is. -/
theorem body_of_mem {line text : String} (hin : line ∈ splitlines text) (hread : read line.toList = none) :
    body (lineParser read) text = none := by
  have hnone : ∀ lines : List String, line ∈ lines → stmtsOf read lines = none := by
    intro lines hin
    induction lines with
    | nil => cases hin
    | cons first rest ih =>
      rw [stmtsOf]
      cases List.mem_cons.mp hin with
      | inl heq => rw [← heq, hread, Option.bind_none]
      | inr hin =>
        rw [ih hin]
        cases read first.toList with
        | none => rfl
        | some here => rfl
  rw [body_lineParser]
  exact hnone _ hin

theorem body_unread {line : String} (hplain : Plain line.toList) (hread : read line.toList = none) (before after : List String) :
    body (lineParser read) (unlines (before ++ line :: after)) = none :=
  body_of_mem (mem_splitlines_unlines hplain before after) hread

end Lawful

/-! Strings between quotes. -/

/-- A string up to the quote `q`, and what follows it. -/
def readString (q : Char) : Nat → List Char → Option (List Char × List Char)
  | 0, _ => none
  | fuel + 1, cs =>
    if cs.head? = some q then some ([], cs.tail)
    else (Repr.next cs).bind (fun found => (readString q fuel found.2).map (fun more => (found.1 :: more.1, more.2)))

/-- The strings of a list, up to its bracket. -/
def readStrings : Nat → List Char → Option (List String)
  | 0, _ => none
  | fuel + 1, cs =>
    match cs with
    | [] => none
    | q :: rest =>
      if q = '\'' ∨ q = '"' then
        match readString q rest.length rest with
        | some (s, [']']) => some [String.ofList s]
        | some (s, ',' :: ' ' :: more) => (readStrings fuel more).map (String.ofList s :: ·)
        | _ => none
      else none

section Strings
variable {printable : Char → Bool}

theorem readString_escaped {q : Char} (hq : q = '\'' ∨ q = '"') (s rest : List Char) :
    ∀ fuel, s.length < fuel → readString q fuel (s.flatMap (Repr.escape printable q) ++ q :: rest) = some (s, rest) := by
  induction s with
  | nil =>
    intro fuel hfuel
    obtain ⟨fuel, rfl⟩ := Nat.exists_eq_add_of_lt hfuel
    simp [readString]
  | cons c s ih =>
    intro fuel hfuel
    cases fuel with
    | zero => cases hfuel
    | succ fuel =>
      obtain ⟨d, more, hescape, hne⟩ := Repr.escape_head printable hq c
      have hhead : ((c :: s).flatMap (Repr.escape printable q) ++ q :: rest).head? ≠ some q := by
        rw [List.flatMap_cons, hescape]
        simpa using hne
      rw [readString, if_neg hhead, List.flatMap_cons, List.append_assoc, Repr.next_escape hq, Option.bind_some,
        ih fuel (Nat.lt_of_succ_lt_succ hfuel)]
      rfl

variable (printable) in
theorem length_escaped (q : Char) (s : List Char) : s.length ≤ (s.flatMap (Repr.escape printable q)).length := by
  induction s with
  | nil => exact Nat.le_refl _
  | cons c s ih =>
    have hescape : 0 < (Repr.escape printable q c).length := by
      unfold Repr.escape
      repeat' split
      all_goals simp
    rw [List.flatMap_cons, List.length_append, List.length_cons]
    omega

variable (printable) in
/-- The `repr` of a string is read as the string. -/
theorem readString_repr (s rest : List Char) : ∃ q more, Repr.reprChars printable s ++ rest = q :: more ∧
    (q = '\'' ∨ q = '"') ∧ readString q more.length more = some (s, rest) := by
  have hq := Repr.quote_cases s
  refine ⟨Repr.quote s, s.flatMap (Repr.escape printable (Repr.quote s)) ++ Repr.quote s :: rest, ?_, hq, ?_⟩
  · simp [Repr.reprChars]
  · apply readString_escaped hq
    have hlength := length_escaped printable (Repr.quote s) s
    simp only [List.length_append, List.length_cons]
    omega

variable (printable) in
theorem readStrings_repr (name : String) (names : List String) : ∀ fuel, names.length < fuel →
    readStrings fuel ((", ".intercalate ((name :: names).map (Repr.repr printable))).toList ++ [']']) = some (name :: names) := by
  induction names generalizing name with
  | nil =>
    intro fuel hfuel
    obtain ⟨fuel, rfl⟩ := Nat.exists_eq_add_of_lt hfuel
    obtain ⟨q, more, htext, hq, hread⟩ := readString_repr printable name.toList [']']
    have hchars : (", ".intercalate ([name].map (Repr.repr printable))).toList = Repr.reprChars printable name.toList := by
      simp [Repr.repr]
    rw [hchars, htext, readStrings]
    simp [hq, hread]
  | cons next rest ih =>
    intro fuel hfuel
    cases fuel with
    | zero => cases hfuel
    | succ fuel =>
      have hchars : (", ".intercalate ((name :: next :: rest).map (Repr.repr printable))).toList ++ [']'] =
          Repr.reprChars printable name.toList ++
            (',' :: ' ' :: ((", ".intercalate ((next :: rest).map (Repr.repr printable))).toList ++ [']'])) := by
        simp [String.toList_intercalate, Repr.repr]
      obtain ⟨q, more, htext, hq, hread⟩ := readString_repr printable name.toList
        (',' :: ' ' :: ((", ".intercalate ((next :: rest).map (Repr.repr printable))).toList ++ [']']))
      rw [hchars, htext, readStrings, if_pos hq, hread]
      simp only [ih next fuel (Nat.lt_of_succ_lt_succ hfuel), Option.map_some, String.ofList_toList]

end Strings

/-! Lines. -/

/-- The strings assigned to `__all__`. -/
def readAll (cs : List Char) : Option (List String) :=
  if "__all__ = [".toList <+: cs then
    if cs.drop 11 = [']'] then some [] else readStrings cs.length (cs.drop 11)
  else none

def isModule (m : String) : Bool := m ≠ "" && m.toList.all isWordChar && m.toList.head? ≠ some '.'

/-- The level and the module of what is written after `from`. -/
def readModule (module : String) : Option (Nat × Option String) :=
  let level := (module.toList.takeWhile (· = '.')).length
  let m := String.ofList (module.toList.dropWhile (· = '.'))
  if isModule m then some (level, some m) else if m = "" ∧ 0 < level then some (level, none) else none

def starOrNames (names : List String) : Option (List Alias) :=
  if names = ["*"] then some [⟨"*", none⟩] else importedNames names

def readTokens : List String → Option (List Stmt)
  | [] => some []
  | "from" :: module :: "import" :: names =>
    (readModule module).bind (fun found => (starOrNames names).map (fun names => [.importFrom found.1 found.2 names]))
  | _ => none

def readLine (cs : List Char) : Option (List Stmt) :=
  match readAll cs with
  | some strings => some [.assign ["__all__"] (some (strings.map some))]
  | none => readTokens (tokens [] cs)

/-- Names with commas between them. -/
def commaTokens : List String → List String
  | [] => []
  | [name] => [name]
  | name :: rest => name :: "," :: commaTokens rest

/-- A word, or a star. -/
def IsPiece (w : String) : Prop := (w ≠ "" ∧ w.toList.all isWordChar = true) ∨ w = "*"

theorem isPiece_of_isName {name : String} (h : isName name = true) : IsPiece name := by
  simp only [isName, Bool.and_eq_true, List.contains_cons, Bool.not_eq_true', Bool.or_eq_false_iff] at h
  exact .inl ⟨by simpa using h.2.1, h.1.2⟩

theorem isPiece_of_isModule {m : String} (h : isModule m = true) : IsPiece m := by
  simp only [isModule, Bool.and_eq_true] at h
  exact .inl ⟨by simpa using h.1.1, h.1.2⟩

theorem tokens_word {w : List Char} (h : w.all isWordChar = true) (current rest : List Char) :
    tokens current (w ++ rest) = tokens (w.reverse ++ current) rest := by
  induction w generalizing current with
  | nil => rfl
  | cons c w ih =>
    rw [List.all_cons, Bool.and_eq_true] at h
    rw [List.cons_append, tokens, if_pos h.1, ih h.2]
    simp

theorem tokens_boundary {c : Char} (h : isWordChar c = false) (current rest : List Char) :
    tokens current (c :: rest) = word current ++ tokens [] (c :: rest) := by
  have hc : isWordChar c ≠ true := by simp [h]
  rw [tokens, tokens, if_neg hc, if_neg hc]
  split
  · rfl
  · split
    · exact (List.append_nil _).symm
    · rfl

theorem tokens_space (rest : List Char) : tokens [] (' ' :: rest) = tokens [] rest := by
  rw [tokens, if_neg (by decide), if_pos rfl]
  rfl

theorem tokens_comma (rest : List Char) : tokens [] (',' :: rest) = "," :: tokens [] rest := by
  rw [tokens, if_neg (by decide), if_neg (by decide), if_neg (by decide)]
  rfl

theorem tokens_piece {w : String} (h : IsPiece w) (rest : List Char) (hrest : rest.head?.all (fun c => !isWordChar c) = true) :
    tokens [] (w.toList ++ rest) = w :: tokens [] rest := by
  cases h with
  | inl h =>
    have hword : word (w.toList.reverse ++ []) = [w] := by
      rw [List.append_nil, word, if_neg (by simpa using h.1), List.reverse_reverse, String.ofList_toList]
    rw [tokens_word h.2]
    cases rest with
    | nil => exact hword
    | cons c rest => rw [tokens_boundary (by simpa using hrest), hword, List.singleton_append]
  | inr h =>
    rw [h]
    rfl

theorem tokens_names {name : String} {names : List String} (h : ∀ n ∈ name :: names, IsPiece n) :
    tokens [] (", ".intercalate (name :: names)).toList = commaTokens (name :: names) := by
  induction names generalizing name with
  | nil =>
    have hpiece := tokens_piece (h name List.mem_cons_self) [] rfl
    rw [List.append_nil] at hpiece
    rw [String.intercalate_singleton, hpiece]
    rfl
  | cons next rest ih =>
    have hchars : (", ".intercalate (name :: next :: rest)).toList =
        name.toList ++ (',' :: ' ' :: (", ".intercalate (next :: rest)).toList) := by
      simp [String.toList_intercalate]
    rw [hchars, tokens_piece (h name List.mem_cons_self) _ rfl, tokens_comma, tokens_space,
      ih (fun n hn => h n (List.mem_cons_of_mem _ hn))]
    rfl

theorem aliases_commaTokens (name : String) (names : List String) : aliases (commaTokens (name :: names)) =
    if (name :: names).all isName then some ((name :: names).map (⟨·, none⟩)) else none := by
  induction names generalizing name with
  | nil => simp [commaTokens, aliases]
  | cons next rest ih =>
    rw [commaTokens, aliases, ih]
    · by_cases hname : isName name = true
      · by_cases hrest : (next :: rest).all isName = true
        · simp [hname, hrest]
        · simp [hname, hrest]
      · simp [hname]
    · exact List.cons_ne_nil _ _

theorem getLast_commaTokens (name : String) (names : List String) :
    (commaTokens (name :: names)).getLast? = (name :: names).getLast? := by
  induction names generalizing name with
  | nil => rfl
  | cons next rest ih =>
    have htokens : commaTokens (next :: rest) ≠ [] := by cases rest <;> simp [commaTokens]
    rw [commaTokens, List.getLast?_cons_cons, List.getLast?_cons, List.getLast?_cons_cons, ← ih next]
    · cases h : (commaTokens (next :: rest)).getLast? with
      | none => exact absurd (List.getLast?_eq_none_iff.mp h) htokens
      | some last => rfl
    · exact List.cons_ne_nil _ _

/-! A line of imports from a module of the package, and one of strings. -/

theorem tokens_from {m name : String} {names : List String} (hm : isModule m = true) (h : ∀ n ∈ name :: names, IsPiece n) :
    tokens [] ("from ." ++ m ++ " import " ++ ", ".intercalate (name :: names)).toList =
      "from" :: ("." ++ m) :: "import" :: commaTokens (name :: names) := by
  have hchars : ("from ." ++ m ++ " import " ++ ", ".intercalate (name :: names)).toList =
      "from".toList ++ (' ' :: (("." ++ m).toList ++ (' ' :: ("import".toList ++
        (' ' :: (", ".intercalate (name :: names)).toList))))) := by
    simp [String.toList_append]
  have hmodule : IsPiece ("." ++ m) := by
    simp only [isModule, Bool.and_eq_true] at hm
    refine .inl ⟨by simp, ?_⟩
    rw [String.toList_append, List.all_append, hm.1.2]
    rfl
  have hword : IsPiece "from" ∧ IsPiece "import" := ⟨.inl (by decide), .inl (by decide)⟩
  rw [hchars, tokens_piece hword.1 _ rfl, tokens_space, tokens_piece hmodule _ rfl, tokens_space,
    tokens_piece hword.2 _ rfl, tokens_space, tokens_names h]

theorem readModule_plain {m : String} (hm : isModule m = true) : readModule m = some (0, some m) := by
  have hhead : m.toList.head? ≠ some '.' := by
    simp only [isModule, Bool.and_eq_true, decide_eq_true_eq] at hm
    exact hm.2
  have hdots : m.toList.takeWhile (· = '.') = [] ∧ m.toList.dropWhile (· = '.') = m.toList := by
    cases hchars : m.toList with
    | nil => exact ⟨rfl, rfl⟩
    | cons c rest =>
      have hc : c ≠ '.' := by simpa [hchars] using hhead
      simp [hc]
  rw [readModule, hdots.1, hdots.2, String.ofList_toList, if_pos hm]
  rfl

theorem readAll_from (rest : List Char) : readAll ("from ".toList ++ rest) = none := by
  rw [readAll, if_neg]
  intro hprefix
  exact absurd (List.cons_prefix_cons.mp hprefix).1 (by decide)

/-- Nothing is imported from the module. -/
theorem readLine_unfinished {m : String} (hm : IsPiece m) : readLine ("from " ++ m).toList = none := by
  have htokens : tokens [] ("from ".toList ++ m.toList) = ["from", m] := by
    have hfrom : IsPiece "from" := .inl (by decide)
    have hchars : "from ".toList ++ m.toList = "from".toList ++ ' ' :: (m.toList ++ []) := by simp
    rw [hchars, tokens_piece hfrom _ rfl, tokens_space, tokens_piece hm _ rfl]
    rfl
  rw [String.toList_append, readLine, readAll_from]
  simp only [htokens]
  rfl

theorem readModule_dot {m : String} (hm : isModule m = true) : readModule ("." ++ m) = some (1, some m) := by
  have hhead : m.toList.head? ≠ some '.' := by
    simp only [isModule, Bool.and_eq_true, decide_eq_true_eq] at hm
    exact hm.2
  have hdots : ("." ++ m).toList.takeWhile (· = '.') = ['.'] ∧ ("." ++ m).toList.dropWhile (· = '.') = m.toList := by
    rw [String.toList_append]
    cases hchars : m.toList with
    | nil => exact ⟨rfl, rfl⟩
    | cons c rest =>
      have hc : c ≠ '.' := by simpa [hchars] using hhead
      simp [hc]
  rw [readModule, hdots.1, hdots.2, String.ofList_toList, if_pos hm]
  rfl

theorem readLine_from {m name : String} {names : List String} (hm : isModule m = true) (h : ∀ n ∈ name :: names, IsPiece n) :
    readLine ("from ." ++ m ++ " import " ++ ", ".intercalate (name :: names)).toList =
      (starOrNames (commaTokens (name :: names))).map (fun names => [.importFrom 1 (some m) names]) := by
  have hall : readAll ("from ." ++ m ++ " import " ++ ", ".intercalate (name :: names)).toList = none := by
    rw [readAll, if_neg]
    intro hprefix
    simp only [String.toList_append] at hprefix
    exact absurd (List.cons_prefix_cons.mp hprefix).1 (by decide)
  rw [readLine, hall]
  simp only [tokens_from hm h, readTokens, readModule_dot hm, Option.bind_some]

theorem commaTokens_ne_star {name : String} {names : List String} (h : name :: names ≠ ["*"]) :
    commaTokens (name :: names) ≠ ["*"] := by
  cases names with
  | nil => exact h
  | cons next rest => simp [commaTokens]

theorem importedNames_of_pieces {name : String} {names : List String} (h : ∀ n ∈ name :: names, IsPiece n) :
    importedNames (commaTokens (name :: names)) = aliases (commaTokens (name :: names)) := by
  have hsign : ∀ {w : String}, IsPiece w → w ≠ "(" ∧ w ≠ "," := by
    intro w hw
    constructor
    · intro heq
      rw [heq] at hw
      exact absurd hw (by simp [IsPiece, isWordChar])
    · intro heq
      rw [heq] at hw
      exact absurd hw (by simp [IsPiece, isWordChar])
  have hlast : (commaTokens (name :: names)).getLast? ≠ some "," := by
    rw [getLast_commaTokens]
    intro hlast
    exact (hsign (h "," (List.mem_of_getLast? hlast))).2 rfl
  have hhead : ∃ rest, commaTokens (name :: names) = name :: rest := by
    cases names with
    | nil => exact ⟨_, rfl⟩
    | cons next rest => exact ⟨_, rfl⟩
  obtain ⟨rest, hrest⟩ := hhead
  rw [hrest] at hlast ⊢
  rw [importedNames, if_neg hlast]
  · exact fun more heq => absurd (List.cons.inj heq).1 (hsign (h name List.mem_cons_self)).1
  · exact List.cons_ne_nil _ _

theorem starOrNames_of_names {name : String} {names : List String} (h : ∀ n ∈ name :: names, isName n = true) :
    starOrNames (commaTokens (name :: names)) = some ((name :: names).map (⟨·, none⟩)) := by
  have hstar : name :: names ≠ ["*"] := by
    intro heq
    have hname := h "*" (heq ▸ List.mem_cons_self)
    exact absurd hname (by decide)
  rw [starOrNames, if_neg (commaTokens_ne_star hstar), importedNames_of_pieces (fun n hn => isPiece_of_isName (h n hn)),
    aliases_commaTokens, if_pos (List.all_eq_true.mpr h)]

/-- What is no name is not imported, but for a star alone. -/
theorem starOrNames_none {name : String} {names : List String} (hpieces : ∀ n ∈ name :: names, IsPiece n) {other : String}
    (hin : other ∈ name :: names) (hother : isName other = false) (hne : name :: names ≠ ["*"]) :
    starOrNames (commaTokens (name :: names)) = none := by
  have hall : ¬ (name :: names).all isName = true := by
    intro hall
    rw [List.all_eq_true.mp hall other hin] at hother
    cases hother
  rw [starOrNames, if_neg (commaTokens_ne_star hne), importedNames_of_pieces hpieces, aliases_commaTokens, if_neg hall]

theorem length_items (printable : Char → Bool) (names : List String) :
    names.length ≤ (", ".intercalate (names.map (Repr.repr printable))).toList.length := by
  induction names with
  | nil => exact Nat.zero_le _
  | cons name rest ih =>
    cases rest with
    | nil => simp [Repr.repr, Repr.reprChars]
    | cons next rest =>
      have hchars : (", ".intercalate ((name :: next :: rest).map (Repr.repr printable))).toList =
          (Repr.repr printable name).toList ++ (',' :: ' ' :: (", ".intercalate ((next :: rest).map (Repr.repr printable))).toList) := by
        simp [String.toList_intercalate]
      rw [hchars]
      simp only [List.length_append, List.length_cons] at ih ⊢
      omega

theorem readLine_all (printable : Char → Bool) (names : List String) :
    readLine ("__all__ = [" ++ ", ".intercalate (names.map (Repr.repr printable)) ++ "]").toList =
      some [.assign ["__all__"] (some (names.map some))] := by
  have hlength := length_items printable names
  generalize hitems : (", ".intercalate (names.map (Repr.repr printable))).toList = items at hlength
  have hchars : ("__all__ = [" ++ ", ".intercalate (names.map (Repr.repr printable)) ++ "]").toList =
      "__all__ = [".toList ++ (items ++ [']']) := by
    rw [String.toList_append, String.toList_append, hitems, List.append_assoc]
    rfl
  have hread : readAll ("__all__ = [".toList ++ (items ++ [']'])) = some names := by
    have hdrop : ("__all__ = [".toList ++ (items ++ [']'])).drop 11 = items ++ [']'] := rfl
    rw [readAll, if_pos (List.prefix_append _ _), hdrop]
    cases names with
    | nil =>
      rw [← hitems]
      rfl
    | cons name rest =>
      have hstrings := readStrings_repr printable name rest
      rw [hitems] at hstrings
      have hne : items ++ [']'] ≠ [']'] := by
        intro heq
        have hnone := hstrings (rest.length + 1) (Nat.lt_succ_self _)
        rw [heq] at hnone
        exact absurd hnone (by simp [readStrings])
      rw [if_neg hne, hstrings]
      simp only [List.length_append, List.length_cons] at hlength ⊢
      omega
  rw [hchars, readLine, hread]

/-! What is read from a line. -/

theorem mem_stmtsOf {read : List Char → Option (List Stmt)} {lines : List String} {stmts : List Stmt} {stmt : Stmt}
    (h : stmtsOf read lines = some stmts) (hstmt : stmt ∈ stmts) : ∃ line here, read line = some here ∧ stmt ∈ here := by
  induction lines generalizing stmts with
  | nil =>
    obtain rfl := Option.some.inj h
    cases hstmt
  | cons line rest ih =>
    obtain ⟨here, hread, hmore⟩ := Option.bind_eq_some_iff.mp h
    obtain ⟨later, hlater, rfl⟩ := Option.map_eq_some_iff.mp hmore
    cases List.mem_append.mp hstmt with
    | inl hin => exact ⟨_, here, hread, hin⟩
    | inr hin => exact ih hlater hin

theorem mem_aliases {tokens : List String} {names : List Alias} (h : aliases tokens = some names) :
    ∀ a ∈ names, isName a.name = true := by
  fun_induction aliases tokens generalizing names with
  | case1 =>
    obtain rfl := Option.some.inj h
    exact nofun
  | case2 name hname =>
    obtain rfl := Option.some.inj h
    intro a ha
    rw [List.mem_singleton.mp ha]
    exact hname
  | case3 name hname => cases h
  | case4 name rest hname ih =>
    obtain ⟨more, hmore, rfl⟩ := Option.map_eq_some_iff.mp h
    intro a ha
    cases List.mem_cons.mp ha with
    | inl heq =>
      rw [heq]
      exact hname
    | inr hin => exact ih hmore a hin
  | case5 name rest hname => cases h
  | case6 tokens hnil hone hcomma => cases h

theorem mem_starOrNames {tokens : List String} {names : List Alias} (h : starOrNames tokens = some names) :
    names = [⟨"*", none⟩] ∨ ∀ a ∈ names, isName a.name = true := by
  unfold starOrNames at h
  split at h
  · exact .inl (Option.some.inj h).symm
  · refine .inr ?_
    unfold importedNames at h
    split at h
    · split at h
      · exact mem_aliases h
      · cases h
    · cases h
    · split at h
      · cases h
      · exact mem_aliases h

theorem readModule_some {module m : String} {found : Nat × Option String} (h : readModule module = some found)
    (hm : found.2 = some m) : isModule m = true := by
  unfold readModule at h
  simp only at h
  split at h
  · next hvalid =>
    rw [← Option.some.inj h] at hm
    rw [← Option.some.inj hm]
    exact hvalid
  · split at h
    · rw [← Option.some.inj h] at hm
      cases hm
    · cases h

theorem readLine_import {line : List Char} {here : List Stmt} (h : readLine line = some here) {level : Nat} {m : String}
    {names : List Alias} (hstmt : .importFrom level (some m) names ∈ here) :
    isModule m = true ∧ (names = [⟨"*", none⟩] ∨ ∀ a ∈ names, isName a.name = true) := by
  unfold readLine at h
  split at h
  · obtain rfl := Option.some.inj h
    simp at hstmt
  · unfold readTokens at h
    split at h
    · obtain rfl := Option.some.inj h
      cases hstmt
    · next module tokens =>
      obtain ⟨found, hmodule, hmore⟩ := Option.bind_eq_some_iff.mp h
      obtain ⟨imported, himported, rfl⟩ := Option.map_eq_some_iff.mp hmore
      obtain ⟨-, hm, rfl⟩ := Stmt.importFrom.inj (List.mem_singleton.mp hstmt)
      refine ⟨?_, mem_starOrNames himported⟩
      exact readModule_some hmodule hm.symm
    · cases h

/-- No line ends in a character that no line boundary has. -/
theorem plain_of_all {p : Char → Bool} (hbreaks : ['\n', '\r', '\x0b', '\x0c', '\x1c', '\x1d', '\x1e', '\u0085', '\u2028',
    '\u2029'].all (fun c => !p c) = true) {s : List Char} (h : s.all p = true) : Plain s := by
  intro c hc
  have hp := List.all_eq_true.mp h c hc
  by_contra hbreak
  simp only [isBreak, Bool.not_eq_false, List.contains_eq_mem, decide_eq_true_eq] at hbreak
  have hnot := List.all_eq_true.mp hbreaks c hbreak
  rw [hp] at hnot
  cases hnot

theorem plain_of_words {s : List Char} (h : s.all isWordChar = true) : Plain s := plain_of_all (by decide) h

theorem plain_of_ascii {s : List Char} (h : s.all Repr.isAscii = true) : Plain s := plain_of_all (by decide) h

theorem plain_of_piece {w : String} (h : IsPiece w) : Plain w.toList := by
  cases h with
  | inl h => exact plain_of_words h.2
  | inr h =>
    rw [h]
    exact fun c hc => by simp_all [isBreak]

end Ast
