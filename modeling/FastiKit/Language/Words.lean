import Mathlib.Data.List.DropRight

/- Words of a text: PostgreSQL's `string_to_array`, `array_to_string` and `trim` at a
   space, and Python's `str.split`. Words that are joined by spaces come back
   (`stringToArray_join`, `split_join`); where the only white space is the space, both
   see the same words (`split_eq_words`). -/
namespace Words

/-- The characters `str.isspace` knows. -/
def isSpace (c : Char) : Bool :=
  ['\t', '\n', '\x0b', '\x0c', '\r', '\x1c', '\x1d', '\x1e', '\x1f', ' ', '\u0085', '\u00a0', '\u1680', '\u2000',
    '\u2001', '\u2002', '\u2003', '\u2004', '\u2005', '\u2006', '\u2007', '\u2008', '\u2009', '\u200a', '\u2028',
    '\u2029', '\u202f', '\u205f', '\u3000'].contains c

/-- `s.split()` -/
def split (s : String) : List String := ((s.toList.splitOnP isSpace).filter (· ≠ [])).map String.ofList

/-- `string_to_array(s, ' ')` -/
def stringToArray (s : String) : List String := if s = "" then [] else (s.toList.splitOn ' ').map String.ofList

/-- `array_to_string(words, ' ')` -/
def arrayToString (words : List String) : String := " ".intercalate words

/-- `trim(s)` -/
def trim (s : String) : String := String.ofList ((s.toList.dropWhile (· = ' ')).rdropWhile (· = ' '))

/-- A word has characters, and no space among them. -/
def IsWord (w : String) : Prop := w ≠ "" ∧ ' ' ∉ w.toList

/-- The words between the spaces. -/
def words (s : String) : List String := (stringToArray s).filter (· ≠ "")

theorem splitOnP_congr {α : Type} {p q : α → Bool} {s : List α} (h : ∀ c ∈ s, p c = q c) : s.splitOnP p = s.splitOnP q := by
  induction s with
  | nil => rfl
  | cons c rest ih =>
    rw [List.splitOnP_cons_eq_if_modifyHead, List.splitOnP_cons_eq_if_modifyHead, h c List.mem_cons_self, ih (fun d hd => h d (List.mem_cons_of_mem _ hd))]

theorem filter_map_ofList (fields : List (List Char)) :
    (fields.filter (· ≠ [])).map String.ofList = (fields.map String.ofList).filter (· ≠ "") := by
  rw [List.filter_map]
  congr 1
  apply List.filter_congr
  intro field _
  have hempty : String.ofList field = "" ↔ field = [] := by
    rw [← String.toList_inj, String.toList_ofList]
    simp
  simp [hempty]

/-- Where no other white space is, Python sees the words between the spaces. -/
theorem split_eq_words {s : String} (h : ∀ c ∈ s.toList, isSpace c = true → c = ' ') : split s = words s := by
  have hsame : s.toList.splitOnP isSpace = s.toList.splitOn ' ' := by
    apply splitOnP_congr
    intro c hc
    cases hspace : isSpace c with
    | true => simp [h c hc hspace]
    | false =>
      have hne : c ≠ ' ' := by
        intro heq
        rw [heq] at hspace
        exact absurd hspace (by decide)
      simp [hne]
  rw [split, hsame, filter_map_ofList, words, stringToArray]
  split
  · next hempty => simp [hempty]
  · rfl

theorem mem_of_mem_splitOn {sep : Char} {s field : List Char} (h : field ∈ s.splitOn sep) :
    sep ∉ field ∧ ∀ c ∈ field, c ∈ s := by
  unfold List.splitOn at h
  induction s generalizing field with
  | nil => simp_all
  | cons c rest ih =>
    rw [List.splitOnP_cons_eq_if_modifyHead] at h
    split at h
    · cases List.mem_cons.mp h with
      | inl hnil => simp [hnil]
      | inr hrest =>
        obtain ⟨hno, hsub⟩ := ih hrest
        exact ⟨hno, fun d hd => List.mem_cons_of_mem _ (hsub d hd)⟩
    · next hc =>
      cases hfields : rest.splitOnP (· == sep) with
      | nil => exact absurd hfields (List.splitOnP_ne_nil _ _)
      | cons first others =>
        rw [hfields, List.modifyHead_cons] at h
        cases List.mem_cons.mp h with
        | inl hfirst =>
          obtain ⟨hno, hsub⟩ := ih (hfields ▸ List.mem_cons_self)
          rw [hfirst]
          refine ⟨?_, ?_⟩
          · simp only [List.mem_cons, not_or]
            exact ⟨fun heq => hc (by simp [← heq]), hno⟩
          · intro d hd
            cases List.mem_cons.mp hd with
            | inl heq => exact heq ▸ List.mem_cons_self
            | inr hin => exact List.mem_cons_of_mem _ (hsub d hin)
        | inr hothers =>
          obtain ⟨hno, hsub⟩ := ih (hfields ▸ List.mem_cons_of_mem _ hothers)
          exact ⟨hno, fun d hd => List.mem_cons_of_mem _ (hsub d hd)⟩

theorem isWord_of_mem_words {s w : String} (h : w ∈ words s) : IsWord w ∧ ∀ c ∈ w.toList, c ∈ s.toList := by
  obtain ⟨hin, hne⟩ := List.mem_filter.mp h
  unfold stringToArray at hin
  split at hin
  · cases hin
  · obtain ⟨field, hfield, rfl⟩ := List.mem_map.mp hin
    obtain ⟨hno, hsub⟩ := mem_of_mem_splitOn hfield
    rw [IsWord, String.toList_ofList]
    exact ⟨⟨by simpa using hne, hno⟩, hsub⟩

section Join
variable {ws : List String}

theorem toList_arrayToString (ws : List String) : (arrayToString ws).toList = [' '].intercalate (ws.map String.toList) := by
  rw [arrayToString, String.toList_intercalate]
  rfl

/-- Words that were joined come back. -/
theorem stringToArray_arrayToString (h : ∀ w ∈ ws, IsWord w) : stringToArray (arrayToString ws) = ws := by
  by_cases hws : ws = []
  · rw [hws]
    rfl
  · have hne : arrayToString ws ≠ "" := by
      intro hempty
      have hlist := toList_arrayToString ws
      rw [hempty] at hlist
      cases ws with
      | nil => exact hws rfl
      | cons w rest =>
        obtain ⟨hw, -⟩ := h w List.mem_cons_self
        cases rest with
        | nil =>
          apply hw
          rw [← String.toList_inj]
          simpa using hlist.symm
        | cons next rest => simp [List.intercalate_cons_cons] at hlist
    rw [stringToArray, if_neg hne, toList_arrayToString, List.splitOn_intercalate]
    · simp
    · intro l hl
      obtain ⟨w, hw, rfl⟩ := List.mem_map.mp hl
      exact (h w hw).2
    · simpa using hws

theorem words_arrayToString (h : ∀ w ∈ ws, IsWord w) : words (arrayToString ws) = ws := by
  rw [words, stringToArray_arrayToString h, List.filter_eq_self]
  intro w hw
  simpa using (h w hw).1

theorem arrayToString_append {us : List String} (hus : us ≠ []) (hws : ws ≠ []) :
    arrayToString (us ++ ws) = arrayToString us ++ " " ++ arrayToString ws :=
  String.intercalate_append_of_ne_nil hus hws

/-- Words with a space between them begin and end without one. -/
theorem tight_arrayToString (h : ∀ w ∈ ws, IsWord w) :
    (arrayToString ws).toList.head? ≠ some ' ' ∧ (arrayToString ws).toList.getLast? ≠ some ' ' := by
  have hword : ∀ w ∈ ws, w.toList ≠ [] ∧ w.toList.head? ≠ some ' ' ∧ w.toList.getLast? ≠ some ' ' := by
    intro w hw
    obtain ⟨hne, hno⟩ := h w hw
    refine ⟨by simpa using hne, ?_, ?_⟩
    · exact fun hhead => hno (List.mem_of_mem_head? hhead)
    · exact fun hlast => hno (List.mem_of_getLast? hlast)
  constructor
  · cases ws with
    | nil => simp [arrayToString]
    | cons w rest =>
      obtain ⟨hne, hhead, -⟩ := hword w List.mem_cons_self
      have hstart : w.toList <+: (arrayToString (w :: rest)).toList := by
        rw [toList_arrayToString]
        cases rest with
        | nil => simp
        | cons next rest =>
          rw [List.map_cons, List.map_cons, List.intercalate_cons_cons, List.append_assoc]
          exact List.prefix_append _ _
      obtain ⟨more, hmore⟩ := hstart
      rw [← hmore, List.head?_append_of_ne_nil _ hne]
      exact hhead
  · cases List.eq_nil_or_concat ws with
    | inl hnil => simp [hnil, arrayToString]
    | inr hconcat =>
      obtain ⟨init, last, rfl⟩ := hconcat
      rw [List.concat_eq_append] at hword ⊢
      obtain ⟨hne, -, hlast⟩ := hword last (by simp)
      have hend : ∃ more, (arrayToString (init ++ [last])).toList = more ++ last.toList := by
        by_cases hinit : init = []
        · exact ⟨[], by simp [hinit, arrayToString]⟩
        · have hsingle : arrayToString [last] = last := by simp [arrayToString]
          rw [arrayToString_append hinit (List.cons_ne_nil _ _), String.toList_append, hsingle]
          exact ⟨_, rfl⟩
      obtain ⟨more, hmore⟩ := hend
      rw [hmore, List.getLast?_append_of_ne_nil _ hne]
      exact hlast

theorem trim_of_tight {s : String} (h : s.toList.head? ≠ some ' ' ∧ s.toList.getLast? ≠ some ' ') : trim s = s := by
  have hdrop : s.toList.dropWhile (fun c => c = ' ') = s.toList := by
    cases hs : s.toList with
    | nil => rfl
    | cons c rest =>
      have hc : c ≠ ' ' := by simpa [hs] using h.1
      simp [hc]
  have hrdrop : s.toList.rdropWhile (fun c => c = ' ') = s.toList := by
    rw [List.rdropWhile_eq_self_iff]
    intro hne
    have hlast := h.2
    rw [List.getLast?_eq_some_getLast hne] at hlast
    simpa using hlast
  rw [trim, hdrop, hrdrop, String.ofList_toList]

/-- A space at the end goes. -/
theorem trim_space {s : String} (h : s.toList.head? ≠ some ' ') : trim (s ++ " ") = trim s := by
  have htext : (s ++ " ").toList = s.toList ++ [' '] := by simp
  rw [trim, trim, htext]
  cases hs : s.toList with
  | nil => rfl
  | cons c rest =>
    have hc : c ≠ ' ' := by simpa [hs] using h
    have hdrop : ∀ more, (c :: more).dropWhile (fun c => decide (c = ' ')) = c :: more := by
      intro more
      simp [hc]
    rw [List.cons_append, hdrop, hdrop, ← List.cons_append, List.rdropWhile_concat_pos _ _ _ (by simp)]

theorem trim_arrayToString (h : ∀ w ∈ ws, IsWord w) : trim (arrayToString ws) = arrayToString ws :=
  trim_of_tight (tight_arrayToString h)

/-- A word added at the end, where there may be none before. -/
theorem trim_arrayToString_append (h : ∀ w ∈ ws, IsWord w) {us : List String} (hus : ∀ w ∈ us, IsWord w) :
    trim (arrayToString ws ++ " " ++ arrayToString us) = arrayToString (ws ++ us) := by
  by_cases hws : ws = []
  · have hfirst : trim ("" ++ " " ++ arrayToString us) = trim (arrayToString us) := by
      simp [trim]
    rw [hws, List.nil_append]
    exact hfirst.trans (trim_arrayToString hus)
  · by_cases hempty : us = []
    · have hnone : arrayToString ([] : List String) = "" := rfl
      rw [hempty, List.append_nil, hnone, String.append_empty, trim_space (tight_arrayToString h).1,
        trim_arrayToString h]
    · rw [← arrayToString_append hws hempty, trim_arrayToString]
      intro w hw
      cases List.mem_append.mp hw with
      | inl hin => exact h w hin
      | inr hin => exact hus w hin

/-- A word without any white space. -/
def IsToken (w : String) : Prop := w ≠ "" ∧ ∀ c ∈ w.toList, isSpace c = false

theorem IsToken.isWord {w : String} (h : IsToken w) : IsWord w := by
  refine ⟨h.1, ?_⟩
  intro hin
  exact absurd (h.2 ' ' hin) (by decide)

theorem mem_arrayToString {c : Char} (h : c ∈ (arrayToString ws).toList) : c = ' ' ∨ ∃ w ∈ ws, c ∈ w.toList := by
  induction ws with
  | nil => simp [arrayToString] at h
  | cons w rest ih =>
    rw [toList_arrayToString] at h ih
    cases rest with
    | nil => exact .inr ⟨w, List.mem_cons_self, by simpa using h⟩
    | cons next rest =>
      rw [List.map_cons, List.map_cons, List.intercalate_cons_cons, List.mem_append, List.mem_append] at h
      rw [List.map_cons] at ih
      obtain (hw | hspace) | hrest := h
      · exact .inr ⟨w, List.mem_cons_self, hw⟩
      · exact .inl (List.mem_singleton.mp hspace)
      · refine (ih hrest).imp_right ?_
        intro hin
        obtain ⟨v, hv, hc⟩ := hin
        exact ⟨v, List.mem_cons_of_mem _ hv, hc⟩

/-- Python reads back the words that were joined. -/
theorem split_arrayToString (h : ∀ w ∈ ws, IsToken w) : split (arrayToString ws) = ws := by
  rw [split_eq_words, words_arrayToString (fun w hw => (h w hw).isWord)]
  intro c hc hspace
  cases mem_arrayToString hc with
  | inl heq => exact heq
  | inr hin =>
    obtain ⟨w, hw, hcw⟩ := hin
    rw [(h w hw).2 c hcw] at hspace
    cases hspace

end Join

end Words
