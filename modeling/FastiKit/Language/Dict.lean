import Mathlib.Data.List.Nodup

/- Python's dict: entries in the order their keys came in, a key at most once. -/

structure Dict (κ υ : Type) where
  entries : List (κ × υ)
  nodup : (entries.map Prod.fst).Nodup

namespace Dict
variable {κ υ : Type} [DecidableEq κ]

/-- The value at `key` changed by `f`; a new key comes last, with `f default`. -/
def alterEntries (key : κ) (default : υ) (f : υ → υ) : List (κ × υ) → List (κ × υ)
  | [] => [(key, f default)]
  | entry :: rest => if entry.1 = key then (key, f entry.2) :: rest else entry :: alterEntries key default f rest

/-- The value at `key` in some entries. -/
def find (key : κ) (default : υ) : List (κ × υ) → υ
  | [] => default
  | entry :: rest => if entry.1 = key then entry.2 else find key default rest

variable {key : κ} {default : υ} {f : υ → υ} {entries : List (κ × υ)}

theorem keys_alterEntries : (alterEntries key default f entries).map Prod.fst =
    if key ∈ entries.map Prod.fst then entries.map Prod.fst else entries.map Prod.fst ++ [key] := by
  induction entries with
  | nil => simp [alterEntries]
  | cons entry rest ih =>
    by_cases h : entry.1 = key
    · simp [alterEntries, h]
    · simp only [alterEntries, if_neg h, List.map_cons, ih, List.mem_cons, Ne.symm h, false_or]
      split
      · rfl
      · rfl

theorem find_alterEntries (key' : κ) : find key' default (alterEntries key default f entries) =
    if key' = key then f (find key default entries) else find key' default entries := by
  induction entries with
  | nil =>
    by_cases h : key' = key
    · simp [alterEntries, find, h]
    · simp [alterEntries, find, h, Ne.symm h]
  | cons entry rest ih =>
    by_cases hentry : entry.1 = key
    · by_cases h : key' = key
      · simp [alterEntries, find, hentry, h]
      · simp [alterEntries, find, hentry, h, Ne.symm h]
    · simp only [alterEntries, if_neg hentry, find, ih]
      by_cases h : key' = key
      · simp [h, hentry]
      · simp [h]

theorem alterEntries_new (h : key ∉ entries.map Prod.fst) : alterEntries key default f entries = entries ++ [(key, f default)] := by
  induction entries with
  | nil => rfl
  | cons entry rest ih =>
    rw [List.map_cons, List.mem_cons, not_or] at h
    simp [alterEntries, Ne.symm h.1, ih h.2]

/-- An entry that is not changed stays as it is. -/
theorem alterEntries_eq_self (h : key ∈ entries.map Prod.fst) (hf : f (find key default entries) = find key default entries) :
    alterEntries key default f entries = entries := by
  induction entries with
  | nil => cases h
  | cons entry rest ih =>
    by_cases hentry : entry.1 = key
    · simp only [find, if_pos hentry] at hf
      rw [alterEntries, if_pos hentry, hf, ← hentry]
    · simp only [find, if_neg hentry] at hf
      rw [List.map_cons, List.mem_cons] at h
      rw [alterEntries, if_neg hentry, ih (h.resolve_left (Ne.symm hentry)) hf]

theorem find_of_mem {value : υ} (hnodup : (entries.map Prod.fst).Nodup) (h : (key, value) ∈ entries) :
    find key default entries = value := by
  induction entries with
  | nil => cases h
  | cons entry rest ih =>
    rw [List.map_cons, List.nodup_cons] at hnodup
    rw [List.mem_cons] at h
    cases h with
    | inl h => simp [find, ← h]
    | inr h =>
      have hne : entry.1 ≠ key := fun heq => hnodup.1 (heq ▸ List.mem_map_of_mem h)
      rw [find, if_neg hne, ih hnodup.2 h]

theorem mem_of_find (h : find key default entries ≠ default) : (key, find key default entries) ∈ entries := by
  induction entries with
  | nil => exact absurd rfl h
  | cons entry rest ih =>
    by_cases hentry : entry.1 = key
    · simp [find, ← hentry]
    · simp only [find, if_neg hentry] at h ⊢
      exact List.mem_cons_of_mem _ (ih h)

def empty : Dict κ υ := ⟨[], List.nodup_nil⟩

def get (d : Dict κ υ) (key : κ) (default : υ) : υ := find key default d.entries

/-- `d.setdefault(key, default)`, then what is there changed by `f`. -/
def alter (d : Dict κ υ) (key : κ) (default : υ) (f : υ → υ) : Dict κ υ where
  entries := alterEntries key default f d.entries
  nodup := by
    rw [keys_alterEntries]
    split
    · exact d.nodup
    · next h => exact d.nodup.append (List.nodup_singleton key) (by simpa using h)

variable {d : Dict κ υ} {value : υ}

@[simp] theorem get_empty : (empty : Dict κ υ).get key default = default := rfl

@[simp] theorem get_alter (key' : κ) :
    (d.alter key default f).get key' default = if key' = key then f (d.get key default) else d.get key' default :=
  find_alterEntries key'

theorem get_of_mem (default : υ) (h : (key, value) ∈ d.entries) : d.get key default = value := find_of_mem d.nodup h

theorem mem_of_get (h : d.get key default ≠ default) : (key, d.get key default) ∈ d.entries := mem_of_find h

theorem entries_alter_new (h : key ∉ d.entries.map Prod.fst) : (d.alter key default f).entries = d.entries ++ [(key, f default)] :=
  alterEntries_new h

theorem alter_eq_self (h : key ∈ d.entries.map Prod.fst) (hf : f (d.get key default) = d.get key default) :
    (d.alter key default f).entries = d.entries :=
  alterEntries_eq_self h hf

/-! Assignment. -/

/-- `d[key] = value` -/
def set (d : Dict κ υ) (key : κ) (value : υ) : Dict κ υ := d.alter key value (fun _ => value)

/-- `d.update(pairs)` -/
def update (d : Dict κ υ) (pairs : List (κ × υ)) : Dict κ υ := pairs.foldl (fun d pair => d.set pair.1 pair.2) d

/-- What is in the dict is what was assigned, and what was there under other keys. -/
theorem mem_alterEntries {pair : κ × υ} (hnodup : (entries.map Prod.fst).Nodup) :
    pair ∈ alterEntries key value (fun _ => value) entries ↔ pair = (key, value) ∨ pair ∈ entries ∧ pair.1 ≠ key := by
  induction entries with
  | nil => simp [alterEntries]
  | cons entry rest ih =>
    rw [List.map_cons, List.nodup_cons] at hnodup
    by_cases hentry : entry.1 = key
    · have hrest : pair ∈ rest → pair.1 ≠ key := by
        intro hin heq
        exact hnodup.1 (hentry.trans heq.symm ▸ List.mem_map_of_mem hin)
      rw [alterEntries, if_pos hentry, List.mem_cons, List.mem_cons]
      constructor
      · intro h
        exact h.imp_right (fun hin => ⟨.inr hin, hrest hin⟩)
      · intro h
        refine h.imp_right (fun hold => hold.1.resolve_left ?_)
        intro heq
        exact hold.2 (heq ▸ hentry)
    · rw [alterEntries, if_neg hentry, List.mem_cons, List.mem_cons, ih hnodup.2]
      constructor
      · intro h
        obtain rfl | h | h := h
        · exact .inr ⟨.inl rfl, hentry⟩
        · exact .inl h
        · exact .inr ⟨.inr h.1, h.2⟩
      · intro h
        obtain h | ⟨rfl | h, hne⟩ := h
        · exact .inr (.inl h)
        · exact .inl rfl
        · exact .inr (.inr ⟨h, hne⟩)

theorem mem_set {pair : κ × υ} : pair ∈ (d.set key value).entries ↔ pair = (key, value) ∨ pair ∈ d.entries ∧ pair.1 ≠ key :=
  mem_alterEntries d.nodup

theorem get_set_self (default : υ) : (d.set key value).get key default = value := get_of_mem default (mem_set.mpr (.inl rfl))

theorem mem_update {pairs : List (κ × υ)} (hnodup : (pairs.map Prod.fst).Nodup) {pair : κ × υ} :
    pair ∈ (d.update pairs).entries ↔ pair ∈ pairs ∨ pair ∈ d.entries ∧ pair.1 ∉ pairs.map Prod.fst := by
  induction pairs generalizing d with
  | nil => simp [update]
  | cons first rest ih =>
    rw [List.map_cons, List.nodup_cons] at hnodup
    have hrest := ih hnodup.2 (d := d.set first.1 first.2)
    rw [update, List.foldl_cons]
    rw [update] at hrest
    rw [hrest, mem_set, List.mem_cons, List.map_cons, List.mem_cons, not_or]
    constructor
    · intro h
      obtain h | ⟨h | ⟨h, hne⟩, hnot⟩ := h
      · exact .inl (.inr h)
      · exact .inl (.inl h)
      · exact .inr ⟨h, hne, hnot⟩
    · intro h
      obtain (h | h) | ⟨h, hne, hnot⟩ := h
      · refine .inr ⟨.inl h, ?_⟩
        rw [h]
        exact hnodup.1
      · exact .inl h
      · exact .inr ⟨.inr ⟨h, hne⟩, hnot⟩

end Dict
