import Mathlib.Data.List.DropRight
import Mathlib.Data.List.Infix

/- Lines of a text, as Python's `str.splitlines`, `"\n".join` and `str.strip` have
   them. A line is plain if it has no line boundary in it; `splitlines` gives plain
   lines, and reads back the plain lines that were joined (`splitlines_unlines`).
   What occurs in a text and is plain occurs in one of its lines (`exists_line`). -/
namespace Lines

/-- The line boundaries of `str.splitlines`. -/
def isBreak (c : Char) : Bool :=
  ['\n', '\r', '\x0b', '\x0c', '\x1c', '\x1d', '\x1e', '\u0085', '\u2028', '\u2029'].contains c

/-- The lines of a text, the first of which has begun with `current`, last character first. -/
def splitChars : List Char → List Char → List (List Char)
  | [], [] => []
  | current, [] => [current.reverse]
  | current, '\r' :: '\n' :: rest => current.reverse :: splitChars [] rest
  | current, c :: rest =>
    if isBreak c then current.reverse :: splitChars [] rest else splitChars (c :: current) rest

def splitlines (s : String) : List String := (splitChars [] s.toList).map String.ofList

/-- `"\n".join(lines) + "\n"`, for lines that are not empty. -/
def unlines (lines : List String) : String := "\n".intercalate lines ++ "\n"

/-- `s.rstrip("\n")` -/
def rstrip (s : String) : String := String.ofList (s.toList.rdropWhile (fun c => c = '\n'))

/-- `s.strip("\n")` -/
def strip (s : String) : String :=
  String.ofList ((s.toList.dropWhile (fun c => c = '\n')).rdropWhile (fun c => c = '\n'))

def Plain (s : List Char) : Prop := ∀ c ∈ s, isBreak c = false

theorem Plain.append {s t : List Char} (hs : Plain s) (ht : Plain t) : Plain (s ++ t) := by
  intro c hc
  rcases List.mem_append.mp hc with h | h
  · exact hs c h
  · exact ht c h

section SplitChars

@[simp] theorem splitChars_newline (current rest : List Char) :
    splitChars current ('\n' :: rest) = current.reverse :: splitChars [] rest := by
  rw [splitChars]
  · rfl
  · simp

theorem splitChars_cons {c : Char} (hc : isBreak c = false) (current rest : List Char) :
    splitChars current (c :: rest) = splitChars (c :: current) rest := by
  have hreturn : c ≠ '\r' := by
    intro h
    rw [h] at hc
    exact absurd hc (by decide)
  rw [splitChars]
  · simp [hc]
  · simp [hreturn]

theorem splitChars_append {s : List Char} (hs : Plain s) :
    ∀ current rest, splitChars current (s ++ rest) = splitChars (s.reverse ++ current) rest := by
  induction s with
  | nil => exact fun _ _ => rfl
  | cons c s ih =>
    intro current rest
    rw [List.cons_append, splitChars_cons (hs c List.mem_cons_self), ih (fun d hd => hs d (List.mem_cons_of_mem _ hd))]
    simp

theorem splitlines_line {line : String} (hplain : Plain line.toList) (hne : line ≠ "") : splitlines line = [line] := by
  have hsplit := splitChars_append hplain [] []
  rw [List.append_nil, List.append_nil] at hsplit
  rw [splitlines, hsplit]
  cases hrev : line.toList.reverse with
  | nil => exact absurd (String.toList_eq_nil_iff.mp (List.reverse_eq_nil_iff.mp hrev)) hne
  | cons c rest =>
    rw [splitChars, ← hrev, List.reverse_reverse, List.map_singleton, String.ofList_toList]
    exact List.cons_ne_nil _ _

/-- Every line is plain. -/
theorem plain_of_mem (s : List Char) : ∀ current, Plain current → ∀ line ∈ splitChars current s, Plain line := by
  intro current
  have hreverse : ∀ {t : List Char}, Plain t → Plain t.reverse := fun ht c hc => ht c (List.mem_reverse.mp hc)
  fun_induction splitChars current s with
  | case1 => exact nofun
  | case2 current =>
    intro hcurrent line hline
    rw [List.mem_singleton.mp hline]
    exact hreverse hcurrent
  | case3 current rest ih =>
    intro hcurrent line hline
    rcases List.mem_cons.mp hline with rfl | hrest
    · exact hreverse hcurrent
    · exact ih nofun line hrest
  | case4 current c rest hbreak ih ih' =>
    intro hcurrent line hline
    rcases List.mem_cons.mp hline with rfl | hrest
    · exact hreverse hcurrent
    · exact ih' nofun line hrest
  | case5 current c rest hpair hbreak ih =>
    intro hcurrent
    refine ih ?_
    intro d hd
    rcases List.mem_cons.mp hd with rfl | hd
    · simpa using hbreak
    · exact hcurrent d hd

/-- A newline ends a line, whatever comes before and after. -/
theorem splitChars_split (s t : List Char) :
    ∀ current, splitChars current (s ++ '\n' :: t) = splitChars current (s ++ ['\n']) ++ splitChars [] t := by
  intro current
  fun_induction splitChars current s with
  | case1 => simp [splitChars]
  | case2 current => simp [splitChars]
  | case3 current rest ih => simp only [List.cons_append, splitChars, ih]
  | case4 current c rest hpair hbreak ih =>
    by_cases hreturn : c = '\r' ∧ rest = []
    · obtain ⟨rfl, rfl⟩ := hreturn
      simp [splitChars]
    · have hpair' : ∀ u more, c = '\r' → rest ++ '\n' :: u = '\n' :: more → False := by
        intro u more hc heq
        cases rest with
        | nil => exact hreturn ⟨hc, rfl⟩
        | cons d rest =>
          rw [List.cons_append, List.cons.injEq] at heq
          exact hpair rest hc (by rw [heq.1])
      simp only [List.cons_append]
      rw [splitChars, if_pos hbreak, splitChars, if_pos hbreak, ih, List.cons_append]
      · exact hpair' _
      · exact hpair' _
  | case5 current c rest hpair hbreak ih =>
    have hplain : isBreak c = false := by simpa using hbreak
    simp only [List.cons_append]
    rw [splitChars_cons hplain, splitChars_cons hplain, ih]

/-- The line that has begun is continued. -/
theorem exists_first (t : List Char) :
    ∀ current, current ≠ [] → ∃ line ∈ splitChars current t, current.reverse <+: line := by
  intro current
  fun_induction splitChars current t with
  | case1 => exact fun h => absurd rfl h
  | case2 current => exact fun _ => ⟨_, List.mem_singleton_self _, List.prefix_rfl⟩
  | case3 current rest ih => exact fun _ => ⟨_, List.mem_cons_self, List.prefix_rfl⟩
  | case4 current c rest hpair hbreak ih => exact fun _ => ⟨_, List.mem_cons_self, List.prefix_rfl⟩
  | case5 current c rest hpair hbreak ih =>
    intro _
    obtain ⟨line, hline, hprefix⟩ := ih (List.cons_ne_nil _ _)
    refine ⟨line, hline, List.IsPrefix.trans ?_ hprefix⟩
    rw [List.reverse_cons]
    exact List.prefix_append _ _

/-- What is plain and begins after a newline begins a line. -/
theorem exists_line_starting {s : List Char} (hs : Plain s) (hne : s ≠ []) (a b : List Char) :
    ∃ line ∈ splitChars [] (a ++ '\n' :: (s ++ b)), s <+: line := by
  obtain ⟨line, hline, hprefix⟩ := exists_first b s.reverse (by simpa using hne)
  refine ⟨line, ?_, by simpa using hprefix⟩
  rw [splitChars_split, splitChars_append hs, List.append_nil]
  exact List.mem_append_right _ hline

/-- What is plain and occurs in a text occurs in one of its lines. -/
theorem exists_line {s : List Char} (hs : Plain s) (hne : s ≠ []) (b a : List Char) :
    ∀ current, ∃ line ∈ splitChars current (a ++ (s ++ b)), s <:+: line := by
  intro current
  -- `s` begins here: the line that has begun has it
  have hbegins : ∀ current, ∃ line ∈ splitChars current (s ++ b), s <:+: line := by
    intro current
    obtain ⟨line, hline, hprefix⟩ := exists_first b (s.reverse ++ current) (by simp [hne])
    refine ⟨line, ?_, ?_⟩
    · rw [splitChars_append hs]
      exact hline
    · rw [List.reverse_append, List.reverse_reverse] at hprefix
      exact (List.suffix_append _ _).isInfix.trans hprefix.isInfix
  fun_induction splitChars current a with
  | case1 => exact hbegins _
  | case2 current => exact hbegins _
  | case3 current rest ih =>
    obtain ⟨line, hline, hin⟩ := ih
    refine ⟨line, ?_, hin⟩
    simp only [List.cons_append, splitChars]
    exact List.mem_cons_of_mem _ hline
  | case4 current c rest hpair hbreak ih =>
    obtain ⟨line, hline, hin⟩ := ih
    refine ⟨line, ?_, hin⟩
    have hpair' : ∀ more, c = '\r' → rest ++ (s ++ b) = '\n' :: more → False := by
      intro more hc heq
      cases rest with
      | nil =>
        cases s with
        | nil => exact hne rfl
        | cons d s =>
          have hd : d = '\n' := (List.cons.inj heq).1
          have hplain := hs d List.mem_cons_self
          rw [hd] at hplain
          exact absurd hplain (by decide)
      | cons d rest =>
        rw [List.cons_append, List.cons.injEq] at heq
        exact hpair rest hc (by rw [heq.1])
    rw [List.cons_append, splitChars, if_pos hbreak]
    · exact List.mem_cons_of_mem _ hline
    · exact hpair'
  | case5 current c rest hpair hbreak ih =>
    obtain ⟨line, hline, hin⟩ := ih
    refine ⟨line, ?_, hin⟩
    rw [List.cons_append, splitChars_cons (by simpa using hbreak)]
    exact hline

theorem splitChars_snoc (s : List Char) : ∀ current,
    splitChars current (s ++ ['\n']) = splitChars current s ∨
      splitChars current (s ++ ['\n']) = splitChars current s ++ [[]] := by
  intro current
  fun_induction splitChars current s with
  | case1 => exact .inr (by simp [splitChars])
  | case2 current => exact .inl (by simp [splitChars])
  | case3 current rest ih =>
    simp only [List.cons_append, splitChars]
    rcases ih with h | h
    · exact .inl (by rw [h])
    · exact .inr (by rw [h])
  | case4 current c rest hpair hbreak ih =>
    by_cases hreturn : c = '\r' ∧ rest = []
    · obtain ⟨rfl, rfl⟩ := hreturn
      exact .inl (by simp [splitChars])
    · have hpair' : ∀ more, c = '\r' → rest ++ ['\n'] = '\n' :: more → False := by
        intro more hc heq
        cases rest with
        | nil => exact hreturn ⟨hc, rfl⟩
        | cons d rest =>
          rw [List.cons_append, List.cons.injEq] at heq
          exact hpair rest hc (by rw [heq.1])
      rw [List.cons_append, splitChars, if_pos hbreak]
      · rcases ih with h | h
        · exact .inl (by rw [h])
        · exact .inr (by rw [h, List.cons_append])
      · exact hpair'
  | case5 current c rest hpair hbreak ih =>
    rw [List.cons_append, splitChars_cons (by simpa using hbreak)]
    exact ih

/-- A last newline adds at most an empty line. -/
theorem splitlines_newline (text : String) :
    splitlines (text ++ "\n") = splitlines text ∨ splitlines (text ++ "\n") = splitlines text ++ [""] := by
  have hchars : (text ++ "\n").toList = text.toList ++ ['\n'] := by simp
  unfold splitlines
  rw [hchars]
  refine (splitChars_snoc text.toList []).imp (fun h => by rw [h]) (fun h => ?_)
  rw [h, List.map_append]
  rfl

end SplitChars

section Joined
variable {lines : List String}

theorem toList_unlines (hne : lines ≠ []) :
    (unlines lines).toList = lines.flatMap (fun line => line.toList ++ ['\n']) := by
  rw [unlines, String.toList_append, String.toList_intercalate]
  induction lines with
  | nil => exact absurd rfl hne
  | cons line rest ih =>
    cases rest with
    | nil => simp
    | cons next rest =>
      have hrest := ih (List.cons_ne_nil _ _)
      rw [List.map_cons] at hrest
      rw [List.map_cons, List.map_cons, List.intercalate_cons_cons, List.append_assoc, hrest, List.flatMap_cons]
      rfl

theorem unlines_append {others : List String} (hne : lines ≠ []) (hothers : others ≠ []) :
    unlines (lines ++ others) = unlines lines ++ unlines others := by
  rw [← String.toList_inj, toList_unlines (by simp [hne]), List.flatMap_append, ← toList_unlines hne,
    ← toList_unlines hothers, ← String.toList_append]

theorem splitlines_unlines (hne : lines ≠ []) (hplain : ∀ line ∈ lines, Plain line.toList) :
    splitlines (unlines lines) = lines := by
  rw [splitlines, toList_unlines hne]
  clear hne
  induction lines with
  | nil => rfl
  | cons line rest ih =>
    rw [List.flatMap_cons, List.append_assoc, splitChars_append (hplain line List.mem_cons_self)]
    simp only [List.append_nil, List.cons_append, List.nil_append, splitChars_newline, List.reverse_reverse,
      List.map_cons, String.ofList_toList]
    rw [ih (fun l hl => hplain l (List.mem_cons_of_mem _ hl))]

theorem splitlines_append (a b : String) : splitlines (a ++ "\n" ++ b) = splitlines (a ++ "\n") ++ splitlines b := by
  unfold splitlines
  rw [← List.map_append]
  have htext : (a ++ "\n" ++ b).toList = a.toList ++ '\n' :: b.toList := by simp
  have hfirst : (a ++ "\n").toList = a.toList ++ ['\n'] := by simp
  rw [htext, hfirst, splitChars_split]

theorem splitlines_unlines_append {others : List String} (hplain : ∀ line ∈ lines, Plain line.toList) (hne : others ≠ []) :
    splitlines (unlines (lines ++ others)) = lines ++ splitlines (unlines others) := by
  by_cases hlines : lines = []
  · rw [hlines]
    rfl
  · rw [unlines_append hlines hne]
    have happ := splitlines_append ("\n".intercalate lines) (unlines others)
    have hfirst : splitlines ("\n".intercalate lines ++ "\n") = lines := splitlines_unlines hlines hplain
    rwa [hfirst] at happ

theorem splitlines_append_unlines {others : List String} (hplain : ∀ line ∈ others, Plain line.toList) (hne : lines ≠ []) :
    splitlines (unlines (lines ++ others)) = splitlines (unlines lines) ++ others := by
  by_cases hothers : others = []
  · rw [hothers, List.append_nil, List.append_nil]
  · rw [unlines_append hne hothers]
    have happ := splitlines_append ("\n".intercalate lines) (unlines others)
    rwa [splitlines_unlines hothers hplain] at happ

/-- A plain line that was joined, whatever the others are. -/
theorem mem_splitlines_unlines {line : String} (hplain : Plain line.toList) (before after : List String) :
    line ∈ splitlines (unlines (before ++ line :: after)) := by
  have hline : ∀ rest, line.toList ∈ splitChars [] (line.toList ++ '\n' :: rest) := by
    intro rest
    rw [splitChars_append hplain, splitChars_newline]
    simp
  refine List.mem_map.mpr ⟨line.toList, ?_, String.ofList_toList⟩
  rw [toList_unlines (by simp), List.flatMap_append, List.flatMap_cons, List.append_assoc, List.singleton_append]
  by_cases hbefore : before = []
  · rw [hbefore]
    exact hline _
  · obtain ⟨first, last, rfl⟩ := List.eq_nil_or_concat before |>.resolve_left hbefore
    have hchars : (first.concat last).flatMap (fun line => line.toList ++ ['\n']) =
        first.flatMap (fun line => line.toList ++ ['\n']) ++ last.toList ++ ['\n'] := by simp
    rw [hchars, List.append_assoc, List.singleton_append, splitChars_split]
    exact List.mem_append_right _ (hline _)

theorem plain_intercalate {sep : String} (hsep : Plain sep.toList) (h : ∀ line ∈ lines, Plain line.toList) :
    Plain (sep.intercalate lines).toList := by
  induction lines with
  | nil => exact nofun
  | cons line rest ih =>
    cases rest with
    | nil =>
      rw [String.intercalate_singleton]
      exact h line List.mem_cons_self
    | cons next rest =>
      have hrest := ih (fun l hl => h l (List.mem_cons_of_mem _ hl))
      have hchars : (sep.intercalate (line :: next :: rest)).toList =
          line.toList ++ (sep.toList ++ (sep.intercalate (next :: rest)).toList) := by
        simp [String.toList_intercalate]
      rw [hchars]
      exact (h line List.mem_cons_self).append (hsep.append hrest)

/-! Empty lines at the ends of what is joined. -/

/-- A text that is not empty and has no newline at its ends. -/
def Unpadded (text : String) : Prop :=
  text ≠ "" ∧ text.toList.head? ≠ some '\n' ∧ text.toList.getLast? ≠ some '\n'

theorem unpadded_of_plain {line : String} (hplain : Plain line.toList) (hne : line ≠ "") : Unpadded line := by
  refine ⟨hne, fun h => ?_, fun h => ?_⟩
  · exact absurd (hplain '\n' (List.mem_of_head? h)) (by decide)
  · exact absurd (hplain '\n' (List.mem_of_getLast? h)) (by decide)

theorem toList_joined (line : String) {rest : List String} (hne : rest ≠ []) :
    ("\n".intercalate (line :: rest)).toList = line.toList ++ '\n' :: ("\n".intercalate rest).toList := by
  rw [String.toList_intercalate, String.toList_intercalate, List.map_cons,
    List.intercalate_cons_of_ne_nil (by simpa using hne)]
  simp

theorem toList_joined_concat {first : List String} (hne : first ≠ []) (line : String) :
    ("\n".intercalate (first ++ [line])).toList = ("\n".intercalate first).toList ++ '\n' :: line.toList := by
  induction first with
  | nil => exact absurd rfl hne
  | cons next rest ih =>
    cases rest with
    | nil => simp
    | cons other rest =>
      rw [List.cons_append, toList_joined _ (by simp), ih (List.cons_ne_nil _ _), toList_joined _ (List.cons_ne_nil _ _)]
      simp

theorem head_joined {line : String} (hne : line ≠ "") (rest : List String) :
    ("\n".intercalate (line :: rest)).toList.head? = line.toList.head? := by
  have hchars : line.toList ≠ [] := by simpa using hne
  cases rest with
  | nil => rw [String.intercalate_singleton]
  | cons next rest => rw [toList_joined _ (List.cons_ne_nil _ _), List.head?_append_of_ne_nil _ hchars]

theorem getLast_joined {line : String} (hne : line ≠ "") (first : List String) :
    ("\n".intercalate (first ++ [line])).toList.getLast? = line.toList.getLast? := by
  have hchars : line.toList ≠ [] := by simpa using hne
  by_cases hfirst : first = []
  · rw [hfirst, List.nil_append, String.intercalate_singleton]
  · rw [toList_joined_concat hfirst, List.getLast?_append_cons, List.getLast?_cons]
    cases h : line.toList.getLast? with
    | none => exact absurd (List.getLast?_eq_none_iff.mp h) hchars
    | some c => rfl

theorem dropWhile_joined {front : List String} (rest : List String) (hfront : ∀ l ∈ front, Plain l.toList) {first : String}
    (hfirst : Unpadded first) : ("\n".intercalate (front ++ first :: rest)).toList.dropWhile (fun c => c = '\n') =
      ("\n".intercalate (front.dropWhile (· = "") ++ first :: rest)).toList := by
  have hhead : ∀ {l : String} (more : List String), Unpadded l →
      ("\n".intercalate (l :: more)).toList.dropWhile (fun c => c = '\n') = ("\n".intercalate (l :: more)).toList := by
    intro l more hl
    rw [List.dropWhile_eq_self_iff]
    intro hlen
    have hc : ("\n".intercalate (l :: more)).toList.head? = (("\n".intercalate (l :: more)).toList)[0]? := List.head?_eq_getElem?
    rw [head_joined hl.1, List.getElem?_eq_getElem hlen] at hc
    simpa [hc] using hl.2.1
  induction front with
  | nil => exact hhead _ hfirst
  | cons l front ih =>
    by_cases hl : l = ""
    · rw [List.cons_append, toList_joined _ (by simp), hl]
      simpa using ih (fun l hin => hfront l (List.mem_cons_of_mem _ hin))
    · rw [List.cons_append, List.dropWhile_cons_of_neg (by simpa using hl)]
      exact hhead _ (unpadded_of_plain (hfront l List.mem_cons_self) hl)

theorem rdropWhile_joined (first : List String) {back : List String} (hback : ∀ l ∈ back, Plain l.toList) {last : String}
    (hlast : Unpadded last) : ("\n".intercalate (first ++ [last] ++ back)).toList.rdropWhile (fun c => c = '\n') =
      ("\n".intercalate (first ++ [last] ++ back.rdropWhile (· = ""))).toList := by
  have hend : ∀ {l : String} (more : List String), Unpadded l →
      ("\n".intercalate (more ++ [l])).toList.rdropWhile (fun c => c = '\n') = ("\n".intercalate (more ++ [l])).toList := by
    intro l more hl
    rw [List.rdropWhile_eq_self_iff]
    intro hne
    have hc := getLast_joined hl.1 more
    rw [List.getLast?_eq_some_getLast hne] at hc
    have hlast := hl.2.2
    rw [← hc] at hlast
    simpa using hlast
  induction back using List.reverseRecOn with
  | nil => simpa using hend first hlast
  | append_singleton back l ih =>
    by_cases hl : l = ""
    · rw [← List.append_assoc, toList_joined_concat (by simp), hl, String.toList_empty, List.rdropWhile_concat_pos _ _ _ (by simp),
        List.rdropWhile_concat_pos _ _ _ (by simp)]
      exact ih (fun l hin => hback l (List.mem_append_left _ hin))
    · rw [List.rdropWhile_concat_neg _ _ _ (by simpa using hl), ← List.append_assoc]
      exact hend _ (unpadded_of_plain (hback l (List.mem_append_right _ (List.mem_singleton_self l))) hl)

/-- What is left of joined texts when the newlines at the ends are gone. -/
theorem strip_joined {front added back : List String} (hfront : ∀ l ∈ front, Plain l.toList)
    (hback : ∀ l ∈ back, Plain l.toList) (hadded : ∀ text ∈ added, Unpadded text) (hne : added ≠ []) :
    strip ("\n".intercalate (front ++ added ++ back)) ++ "\n" =
      unlines (front.dropWhile (· = "") ++ added ++ back.rdropWhile (· = "")) := by
  obtain ⟨first, rest, rfl⟩ := List.exists_cons_of_ne_nil hne
  have hdrop := dropWhile_joined (rest ++ back) hfront (hadded first List.mem_cons_self)
  obtain ⟨init, last, hinit⟩ := (List.eq_nil_or_concat (first :: rest)).resolve_left hne
  rw [List.concat_eq_append] at hinit
  have hlast : Unpadded last := hadded last (hinit ▸ List.mem_append_right _ (List.mem_singleton_self last))
  have hrdrop := rdropWhile_joined (front.dropWhile (· = "") ++ init) hback hlast
  rw [List.append_assoc (front.dropWhile (· = "")) init [last], ← hinit] at hrdrop
  rw [unlines, strip, List.append_assoc, List.cons_append, hdrop, ← List.cons_append, ← List.append_assoc, hrdrop,
    String.ofList_toList]

/-- A line that was joined occurs in the text. -/
theorem infix_intercalate {line : String} (h : line ∈ lines) : line.toList <:+: ("\n".intercalate lines).toList := by
  rw [String.toList_intercalate]
  induction lines with
  | nil => cases h
  | cons first rest ih =>
    cases rest with
    | nil =>
      rw [List.mem_singleton.mp h]
      simp
    | cons next rest =>
      rw [List.map_cons, List.map_cons, List.intercalate_cons_cons]
      rcases List.mem_cons.mp h with rfl | hrest
      · rw [List.append_assoc]
        exact (List.prefix_append _ _).isInfix
      · exact (ih hrest).trans (List.suffix_append _ _).isInfix

end Joined

theorem plain_of_mem_splitlines {s line : String} (h : line ∈ splitlines s) : Plain line.toList := by
  obtain ⟨chars, hchars, rfl⟩ := List.mem_map.mp h
  rw [String.toList_ofList]
  exact plain_of_mem s.toList [] nofun chars hchars

/-! What stripping the newlines at the ends leaves. -/

section Strip
variable {s t : List Char}

theorem infix_dropWhile (hs : Plain s) (hne : s ≠ []) (h : s <:+: t) : s <:+: t.dropWhile (fun c => c = '\n') := by
  obtain ⟨a, b, rfl⟩ := h
  induction a with
  | nil =>
    cases s with
    | nil => exact absurd rfl hne
    | cons c s =>
      have hc : c ≠ '\n' := by
        intro h
        have hplain := hs c List.mem_cons_self
        rw [h] at hplain
        exact absurd hplain (by decide)
      simpa [List.dropWhile_cons, hc] using (List.prefix_append (c :: s) b).isInfix
  | cons d a ih =>
    rw [List.cons_append, List.cons_append, List.dropWhile_cons]
    split
    · exact ih
    · exact ⟨d :: a, b, by simp⟩

theorem infix_rdropWhile (hs : Plain s) (hne : s ≠ []) (h : s <:+: t) : s <:+: t.rdropWhile (fun c => c = '\n') := by
  have hreverse : s.reverse <:+: t.reverse.dropWhile (fun c => c = '\n') :=
    infix_dropWhile (fun c hc => hs c (List.mem_reverse.mp hc)) (by simpa using hne) (List.reverse_infix.mpr h)
  rw [List.rdropWhile]
  simpa using List.reverse_infix.mpr hreverse

end Strip

theorem infix_rstrip {s : List Char} {t : String} (hs : Plain s) (hne : s ≠ []) (h : s <:+: t.toList) :
    s <:+: (rstrip t).toList := by
  rw [rstrip, String.toList_ofList]
  exact infix_rdropWhile hs hne h

theorem infix_strip {s : List Char} {t : String} (hs : Plain s) (hne : s ≠ []) (h : s <:+: t.toList) :
    s <:+: (strip t).toList := by
  rw [strip, String.toList_ofList]
  exact infix_rdropWhile hs hne (infix_dropWhile hs hne h)

/-! The lines that start with something, through the same operations. -/

/-- A line of the text starts with `s`. -/
def Starts (s : List Char) (t : String) : Prop := ∃ line ∈ splitlines t, s <+: line.toList

section Starts
variable {s : List Char} {t : String}

theorem starts_iff : Starts s t ↔ ∃ line ∈ splitChars [] t.toList, s <+: line := by
  constructor
  · intro h
    obtain ⟨line, hline, hprefix⟩ := h
    obtain ⟨chars, hchars, rfl⟩ := List.mem_map.mp hline
    exact ⟨chars, hchars, by simpa using hprefix⟩
  · intro h
    obtain ⟨chars, hchars, hprefix⟩ := h
    exact ⟨_, List.mem_map_of_mem hchars, by simpa using hprefix⟩

theorem starts_of_infix (hs : Plain s) (hne : s ≠ []) (h : '\n' :: s <:+: t.toList) : Starts s t := by
  obtain ⟨a, b, hab⟩ := h
  rw [starts_iff, ← hab, List.append_assoc]
  exact exists_line_starting hs hne a b

theorem starts_append {a b : String} (hne : s ≠ []) (h : Starts s (a ++ "\n" ++ b)) : Starts s a ∨ Starts s b := by
  rw [starts_iff] at h
  obtain ⟨line, hline, hprefix⟩ := h
  have htext : (a ++ "\n" ++ b).toList = a.toList ++ '\n' :: b.toList := by simp
  rw [htext, splitChars_split] at hline
  rcases List.mem_append.mp hline with ha | hb
  · rcases splitChars_snoc a.toList [] with hsame | hmore
    · exact .inl (starts_iff.mpr ⟨line, hsame ▸ ha, hprefix⟩)
    · rw [hmore] at ha
      rcases List.mem_append.mp ha with ha | hempty
      · exact .inl (starts_iff.mpr ⟨line, ha, hprefix⟩)
      · rw [List.mem_singleton.mp hempty] at hprefix
        exact absurd (List.prefix_nil.mp hprefix) hne
  · exact .inr (starts_iff.mpr ⟨line, hb, hprefix⟩)

theorem starts_newline {a b : String} (h : Starts s a) : Starts s (a ++ "\n" ++ b) := by
  rw [starts_iff] at h ⊢
  obtain ⟨line, hline, hprefix⟩ := h
  refine ⟨line, ?_, hprefix⟩
  have htext : (a ++ "\n" ++ b).toList = a.toList ++ '\n' :: b.toList := by simp
  rw [htext, splitChars_split]
  rcases splitChars_snoc a.toList [] with hsame | hmore
  · exact List.mem_append_left _ (hsame ▸ hline)
  · rw [hmore]
    exact List.mem_append_left _ (List.mem_append_left _ hline)

theorem starts_rstrip (h : Starts s (rstrip t)) : Starts s t := by
  have hparts : t.toList.rdropWhile (fun c => c = '\n') ++ t.toList.rtakeWhile (fun c => c = '\n') = t.toList :=
    List.rdropWhile_append_rtakeWhile ..
  cases hend : t.toList.rtakeWhile (fun c => c = '\n') with
  | nil =>
    rw [hend, List.append_nil] at hparts
    rwa [rstrip, hparts, String.ofList_toList] at h
  | cons c rest =>
    have hc : c = '\n' := by
      have := List.mem_rtakeWhile_imp (hend ▸ List.mem_cons_self : c ∈ t.toList.rtakeWhile (fun c => c = '\n'))
      simpa using this
    have htext : t = rstrip t ++ "\n" ++ String.ofList rest := by
      rw [← String.toList_inj, ← hparts, hend, hc, rstrip]
      simp
    rw [htext]
    exact starts_newline h

theorem starts_strip (h : Starts s (strip t)) : Starts s t := by
  have hdropped : Starts s (String.ofList (t.toList.dropWhile (fun c => c = '\n'))) := by
    refine starts_rstrip ?_
    rwa [rstrip, String.toList_ofList]
  rw [starts_iff, String.toList_ofList] at hdropped
  rw [starts_iff]
  generalize t.toList = chars at hdropped
  induction chars with
  | nil => exact hdropped
  | cons c rest ih =>
    rw [List.dropWhile_cons] at hdropped
    split at hdropped
    · next hc =>
      obtain ⟨line, hline, hprefix⟩ := ih hdropped
      refine ⟨line, ?_, hprefix⟩
      rw [show c = '\n' by simpa using hc, splitChars_newline]
      exact List.mem_cons_of_mem _ hline
    · exact hdropped

/-- A text that was joined has the lines it was joined of. -/
theorem starts_intercalate {lines : List String} (hplain : ∀ line ∈ lines, Plain line.toList)
    (h : Starts s ("\n".intercalate lines)) : ∃ line ∈ lines, s <+: line.toList := by
  by_cases hne : lines = []
  · rw [hne] at h
    obtain ⟨line, hline, -⟩ := h
    cases hline
  · have hlines : Starts s (unlines lines) := by
      have := starts_newline (b := "") h
      simpa [unlines] using this
    obtain ⟨line, hline, hprefix⟩ := hlines
    rw [splitlines_unlines hne hplain] at hline
    exact ⟨line, hline, hprefix⟩

end Starts

end Lines
