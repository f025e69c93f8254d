import Mathlib.Data.List.Nodup

/- A database table with a primary key, and what its statements do to the row
   under a key. The key constraint is a field of the table, so no statement can
   leave two rows with one key: an insert that would is refused, an update does
   not touch the key. -/
namespace Relational

/-- Rows `ρ` under the primary key `key`. -/
structure Table (κ ρ : Type) (key : ρ → κ) where
  rows : List ρ
  nodup : (rows.map key).Nodup

/-- The only row with its key. -/
theorem filter_eq_singleton_of_key {α β : Type} [DecidableEq β] {f : α → β} {l : List α} (hkeys : (l.map f).Nodup)
    {a : α} (ha : a ∈ l) : l.filter (fun b => f b = f a) = [a] := by
  induction l with
  | nil => cases ha
  | cons c l ih =>
    obtain ⟨hfresh, hrest⟩ := List.nodup_cons.mp hkeys
    rcases List.mem_cons.mp ha with rfl | htail
    · have hnone : l.filter (fun b => f b = f a) = [] := by
        rw [List.filter_eq_nil_iff]
        intro b hb hkey
        exact hfresh (of_decide_eq_true hkey ▸ List.mem_map_of_mem hb)
      simp [hnone]
    · have hother : f c ≠ f a := fun hkey => hfresh (hkey ▸ List.mem_map_of_mem htail)
      simp [hother, ih hrest htail]

namespace Table
variable {κ ρ : Type} [DecidableEq κ] {key : ρ → κ}

def empty : Table κ ρ key := ⟨[], List.nodup_nil⟩

/-- The row under a key. -/
def get (t : Table κ ρ key) (k : κ) : Option ρ := t.rows.find? (fun r => key r = k)

/-- INSERT, refused when the key is taken. -/
def insert (t : Table κ ρ key) (r : ρ) : Option (Table κ ρ key) :=
  if h : key r ∈ t.rows.map key then none
  else some ⟨r :: t.rows, List.nodup_cons.mpr ⟨h, t.nodup⟩⟩

/-- The INSERTs of several rows in order. -/
def insertAll (t : Table κ ρ key) : List ρ → Option (Table κ ρ key)
  | [] => some t
  | r :: rs => (t.insert r).bind (fun t' => insertAll t' rs)

/-- UPDATE ... WHERE, for a change that keeps the key. -/
def updateWhere (t : Table κ ρ key) (p : ρ → Bool) (f : ρ → ρ) (hf : ∀ r, key (f r) = key r) :
    Table κ ρ key :=
  ⟨t.rows.map (fun r => if p r then f r else r), by
    have hkey : (fun r => key (if p r then f r else r)) = key := by
      funext r
      split
      · exact hf r
      · rfl
    rw [List.map_map]
    change (t.rows.map (fun r => key (if p r then f r else r))).Nodup
    rw [hkey]
    exact t.nodup⟩

/-- DELETE ... WHERE. -/
def deleteWhere (t : Table κ ρ key) (p : ρ → Bool) : Table κ ρ key :=
  ⟨t.rows.filter (fun r => !p r), t.nodup.sublist (List.filter_sublist.map key)⟩

@[simp] theorem get_empty (k : κ) : (empty : Table κ ρ key).get k = none := rfl

theorem get_key {t : Table κ ρ key} {k : κ} {r : ρ} (h : t.get k = some r) : key r = k := by
  simpa using List.find?_some h

theorem mem_of_get {t : Table κ ρ key} {k : κ} {r : ρ} (h : t.get k = some r) : r ∈ t.rows :=
  List.mem_of_find?_eq_some h

/-- A row is the row under its key. -/
theorem get_of_mem {t : Table κ ρ key} {r : ρ} (h : r ∈ t.rows) : t.get (key r) = some r := by
  cases hg : t.get (key r) with
  | none =>
    have := List.find?_eq_none.mp hg r h
    simp at this
  | some r' =>
    rw [List.inj_on_of_nodup_map t.nodup (mem_of_get hg) h (get_key hg)]

theorem get_eq_none {t : Table κ ρ key} {k : κ} : t.get k = none ↔ ∀ r ∈ t.rows, key r ≠ k := by
  simp [get]

theorem insert_eq_none {t : Table κ ρ key} {r : ρ} : t.insert r = none ↔ ∃ r', t.get (key r) = some r' := by
  unfold insert
  split
  · next h =>
    obtain ⟨r', hr', hk⟩ := List.mem_map.mp h
    simp only [true_iff]
    exact ⟨r', by rw [← hk]; exact get_of_mem hr'⟩
  · next h =>
    simp only [reduceCtorEq, false_iff, not_exists]
    intro r' hr'
    exact h (List.mem_map.mpr ⟨r', mem_of_get hr', get_key hr'⟩)

theorem get_insert {t t' : Table κ ρ key} {r : ρ} (h : t.insert r = some t') (k : κ) :
    t'.get k = if key r = k then some r else t.get k := by
  unfold insert at h
  split at h
  · cases h
  · cases h
    simp only [get, List.find?_cons]
    by_cases hk : key r = k <;> simp [hk]

theorem insert_fresh {t t' : Table κ ρ key} {r : ρ} (h : t.insert r = some t') : t.get (key r) = none := by
  cases hg : t.get (key r) with
  | none => rfl
  | some r' => rw [insert_eq_none.mpr ⟨r', hg⟩] at h; cases h

theorem insert_of_fresh {t : Table κ ρ key} {r : ρ} (h : t.get (key r) = none) :
    ∃ t', t.insert r = some t' := by
  cases hi : t.insert r with
  | some t' => exact ⟨t', rfl⟩
  | none =>
    obtain ⟨r', hr'⟩ := insert_eq_none.mp hi
    rw [h] at hr'
    cases hr'

theorem rows_insert {t t' : Table κ ρ key} {r : ρ} (h : t.insert r = some t') : t'.rows = r :: t.rows := by
  unfold insert at h
  split at h
  · cases h
  · rw [← Option.some.inj h]

theorem rows_insertAll {t t' : Table κ ρ key} {rs : List ρ} (h : t.insertAll rs = some t') :
    t'.rows = rs.reverse ++ t.rows := by
  induction rs generalizing t with
  | nil =>
    rw [← Option.some.inj h]
    rfl
  | cons r rs ih =>
    obtain ⟨mid, hmid, hrest⟩ := Option.bind_eq_some_iff.mp h
    rw [ih hrest, rows_insert hmid, List.reverse_cons, List.append_assoc, List.singleton_append]

/-- Rows with fresh keys, each once, can be inserted. -/
theorem insertAll_of_fresh {t : Table κ ρ key} {rs : List ρ} (hnodup : (rs.map key).Nodup)
    (hfresh : ∀ r ∈ rs, t.get (key r) = none) : ∃ t', t.insertAll rs = some t' := by
  induction rs generalizing t with
  | nil => exact ⟨t, rfl⟩
  | cons r rs ih =>
    obtain ⟨hr, hrest⟩ := List.nodup_cons.mp hnodup
    obtain ⟨mid, hmid⟩ := insert_of_fresh (hfresh r List.mem_cons_self)
    obtain ⟨t', ht'⟩ := ih (t := mid) hrest (by
      intro r' hr'
      have hne : key r ≠ key r' := fun heq => hr (heq ▸ List.mem_map_of_mem hr')
      rw [get_insert hmid, if_neg hne]
      exact hfresh r' (List.mem_cons_of_mem _ hr'))
    exact ⟨t', by rw [insertAll, hmid, Option.bind_some, ht']⟩

theorem insertAll_fresh {t t' : Table κ ρ key} {rs : List ρ} (h : t.insertAll rs = some t') {r : ρ}
    (hr : r ∈ rs) : t.get (key r) = none := by
  have hnodup := t'.nodup
  rw [rows_insertAll h, List.map_append] at hnodup
  rw [get_eq_none]
  intro r' hr' heq
  have hleft : key r ∈ rs.reverse.map key := List.mem_map_of_mem (List.mem_reverse.mpr hr)
  have hright : key r ∈ t.rows.map key := heq ▸ List.mem_map_of_mem hr'
  exact (List.nodup_append.mp hnodup).2.2 _ hleft _ hright rfl

/-- The other keys are as they were. -/
theorem get_insertAll_of_not_mem {t t' : Table κ ρ key} {rs : List ρ} {k : κ} (h : t.insertAll rs = some t')
    (hk : k ∉ rs.map key) : t'.get k = t.get k := by
  induction rs generalizing t with
  | nil => rw [← Option.some.inj h]
  | cons r rs ih =>
    obtain ⟨mid, hmid, hrest⟩ := Option.bind_eq_some_iff.mp h
    simp only [List.map_cons, List.mem_cons, not_or] at hk
    rw [ih hrest hk.2, get_insert hmid, if_neg (Ne.symm hk.1)]

theorem get_updateWhere (t : Table κ ρ key) (p : ρ → Bool) (f : ρ → ρ) (hf : ∀ r, key (f r) = key r)
    (k : κ) : (t.updateWhere p f hf).get k = (t.get k).map (fun r => if p r then f r else r) := by
  have hkey : ∀ r, key (if p r then f r else r) = key r := by
    intro r
    split
    · exact hf r
    · rfl
  simp only [get, updateWhere, List.find?_map, Function.comp_def, hkey]

omit [DecidableEq κ] in
theorem mem_deleteWhere {t : Table κ ρ key} {p : ρ → Bool} {r : ρ} :
    r ∈ (t.deleteWhere p).rows ↔ r ∈ t.rows ∧ p r = false := by
  simp [deleteWhere, List.mem_filter]

omit [DecidableEq κ] in
/-- An update that matches no row changes nothing. -/
theorem updateWhere_eq_self {t : Table κ ρ key} {p : ρ → Bool} {f : ρ → ρ}
    {hf : ∀ r, key (f r) = key r} (h : ∀ r ∈ t.rows, p r = false) : t.updateWhere p f hf = t := by
  have hrows : t.rows.map (fun r => if p r then f r else r) = t.rows := by
    conv_rhs => rw [← List.map_id t.rows]
    apply List.map_congr_left
    intro r hr
    simp [h r hr]
  cases t
  simp only [updateWhere] at hrows ⊢
  congr

theorem get_deleteWhere (t : Table κ ρ key) (p : ρ → Bool) (k : κ) :
    (t.deleteWhere p).get k = (t.get k).filter (fun r => !p r) := by
  cases hg : t.get k with
  | none =>
    rw [get_eq_none] at hg
    simp only [Option.filter_none, get_eq_none, deleteWhere, List.mem_filter]
    exact fun r hr => hg r hr.1
  | some r =>
    have hmem := mem_of_get hg
    have hk := get_key hg
    by_cases hp : p r = true
    · simp only [Option.filter_some, hp, Bool.not_true, Bool.false_eq_true, if_false, get_eq_none,
        deleteWhere, List.mem_filter]
      rintro r' ⟨hr', hp'⟩ hk'
      have : r' = r := List.inj_on_of_nodup_map t.nodup hr' hmem (by rw [hk, hk'])
      rw [this, hp] at hp'
      cases hp'
    · simp only [Option.filter_some, hp, Bool.not_false, if_true]
      have : r ∈ (t.deleteWhere p).rows := by
        simp only [deleteWhere, List.mem_filter]
        exact ⟨hmem, by simp [hp]⟩
      rw [← hk]
      exact get_of_mem this

end Table

end Relational
