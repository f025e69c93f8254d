import FastiKit.Relational.Table

/- A table from which some rows have been taken. `Thinned spent gone t t'` says that
   `t` is `t'` without the rows under the keys of `gone`, each of which is `spent`. The
   same statement keeps two such tables alike as long as it inserts no row under one
   of these keys, and a query that wants no spent row cannot tell the two apart. -/
namespace Relational.Table
variable {κ ρ : Type} [DecidableEq κ] {key : ρ → κ}

/-- `t` has the rows of `t'` whose keys are not gone, in the same order. -/
structure Thinned (spent : ρ → Prop) (gone : κ → Bool) (t t' : Table κ ρ key) : Prop where
  rows : t.rows = t'.rows.filter (fun r => !gone (key r))
  spent : ∀ k, gone k = true → ∃ r, t'.get k = some r ∧ spent r

/-- The keys of the rows that satisfy `p`. -/
def keysWhere (t : Table κ ρ key) (p : ρ → Bool) (k : κ) : Bool := (t.get k).any p

variable {spent : ρ → Prop} {gone : κ → Bool} {t t' : Table κ ρ key}

theorem thinned_refl (t : Table κ ρ key) : Thinned spent (fun _ => false) t t :=
  ⟨by simp, fun k hk => by cases hk⟩

theorem Thinned.mono {used : ρ → Prop} (h : Thinned spent gone t t') (hspent : ∀ r, spent r → used r) :
    Thinned used gone t t' := by
  refine ⟨h.rows, ?_⟩
  intro k hk
  obtain ⟨r, hr, hs⟩ := h.spent k hk
  exact ⟨r, hr, hspent r hs⟩

/-- A row that is missing is spent. -/
theorem Thinned.spent_of_mem (h : Thinned spent gone t t') {r : ρ} (hr : r ∈ t'.rows)
    (hgone : gone (key r) = true) : spent r := by
  obtain ⟨r', hget, hs⟩ := h.spent _ hgone
  rw [get_of_mem hr] at hget
  rwa [Option.some.inj hget]

/-- A query that wants no spent row. -/
theorem Thinned.filter (h : Thinned spent gone t t') {p : ρ → Bool} (hp : ∀ r, spent r → p r = false) :
    t.rows.filter p = t'.rows.filter p := by
  rw [h.rows, List.filter_filter]
  apply List.filter_congr
  intro r hr
  cases hgone : gone (key r) with
  | false => simp
  | true => simp [hp r (h.spent_of_mem hr hgone)]

theorem Thinned.any (h : Thinned spent gone t t') {p : ρ → Bool} (hp : ∀ r, spent r → p r = false) :
    t.rows.any p = t'.rows.any p := by
  rw [Bool.eq_iff_iff, List.any_eq_true, List.any_eq_true]
  have hmem : ∀ r, r ∈ t.rows.filter p ↔ r ∈ t'.rows.filter p := fun r => by rw [h.filter hp]
  simpa [List.mem_filter] using exists_congr hmem

theorem Thinned.get (h : Thinned spent gone t t') (k : κ) : t.get k = if gone k then none else t'.get k := by
  cases hget : t.get k with
  | some r =>
    have hmem := mem_of_get hget
    have hkey := get_key hget
    rw [h.rows, List.mem_filter] at hmem
    have hpresent : gone k = false := by simpa [hkey] using hmem.2
    rw [hpresent, if_neg Bool.false_ne_true, ← hkey]
    exact (get_of_mem hmem.1).symm
  | none =>
    split
    · rfl
    · next hpresent =>
      symm
      rw [get_eq_none] at hget ⊢
      intro r hr hkey
      refine hget r ?_ hkey
      rw [h.rows, List.mem_filter]
      exact ⟨hr, by simpa [hkey] using hpresent⟩

theorem Thinned.get_of_present (h : Thinned spent gone t t') {k : κ} (hk : gone k = false) :
    t.get k = t'.get k := by
  rw [h.get, hk, if_neg Bool.false_ne_true]

/-- The row under a key is the same, or it is spent and gone. -/
theorem Thinned.get_cases (h : Thinned spent gone t t') (k : κ) :
    t.get k = t'.get k ∨ t.get k = none ∧ ∃ r, t'.get k = some r ∧ spent r := by
  cases hgone : gone k with
  | false => exact .inl (h.get_of_present hgone)
  | true => exact .inr ⟨by rw [h.get, hgone, if_pos rfl], h.spent k hgone⟩

/-- The row an UPDATE or a SELECT by key claims, when it claims no spent row. -/
theorem Thinned.get_filter (h : Thinned spent gone t t') (k : κ) {p : ρ → Bool}
    (hp : ∀ r, spent r → p r = false) : (t.get k).filter p = (t'.get k).filter p := by
  rcases h.get_cases k with hsame | ⟨hnone, r, hr, hs⟩
  · rw [hsame]
  · rw [hnone, hr, Option.filter_some, hp r hs]
    rfl

/-- The change of the rows touches neither the keys nor what is spent. -/
theorem Thinned.updateWhere (h : Thinned spent gone t t') (p : ρ → Bool) (f : ρ → ρ) (hf : ∀ r, key (f r) = key r)
    (hspent : ∀ r, spent r → spent (f r)) :
    Thinned spent gone (t.updateWhere p f hf) (t'.updateWhere p f hf) := by
  have hkey : ∀ r, gone (key (if p r then f r else r)) = gone (key r) := by
    intro r
    split
    · rw [hf]
    · rfl
  constructor
  · show t.rows.map _ = (t'.rows.map _).filter _
    rw [List.filter_map, h.rows]
    congr 1
    apply List.filter_congr
    intro r _
    simp [hkey]
  · intro k hk
    obtain ⟨r, hr, hs⟩ := h.spent k hk
    refine ⟨if p r then f r else r, ?_, ?_⟩
    · rw [get_updateWhere, hr]
      rfl
    · split
      · exact hspent r hs
      · exact hs

theorem Thinned.insert (h : Thinned spent gone t t') {r : ρ} (hr : gone (key r) = false) :
    t.insert r = none ∧ t'.insert r = none ∨
      ∃ u u', t.insert r = some u ∧ t'.insert r = some u' ∧ Thinned spent gone u u' := by
  have hget := h.get_of_present hr
  cases hi : t'.insert r with
  | none =>
    left
    obtain ⟨r', hr'⟩ := insert_eq_none.mp hi
    exact ⟨insert_eq_none.mpr ⟨r', hget.trans hr'⟩, rfl⟩
  | some u' =>
    right
    obtain ⟨u, hu⟩ := insert_of_fresh (hget.trans (insert_fresh hi))
    refine ⟨u, u', hu, rfl, ?_, ?_⟩
    · rw [rows_insert hu, rows_insert hi, List.filter_cons, if_pos (by simp [hr]), h.rows]
    · intro k hk
      have hne : key r ≠ k := by
        intro heq
        rw [heq, hk] at hr
        cases hr
      rw [get_insert hi, if_neg hne]
      exact h.spent k hk

/-- More rows are taken from the first table. -/
theorem Thinned.deleteWhere (h : Thinned spent gone t t') {p : ρ → Bool} (hp : ∀ r, p r = true → spent r) :
    Thinned spent (fun k => gone k || t.keysWhere p k) (t.deleteWhere p) t' := by
  have hrow : ∀ r ∈ t'.rows, gone (key r) = false → t.keysWhere p (key r) = p r := by
    intro r hr hpresent
    rw [keysWhere, h.get_of_present hpresent, get_of_mem hr]
    rfl
  constructor
  · show t.rows.filter _ = t'.rows.filter _
    conv_lhs => rw [h.rows, List.filter_filter]
    apply List.filter_congr
    intro r hr
    show (!p r && !gone (key r)) = !(gone (key r) || t.keysWhere p (key r))
    cases hgone : gone (key r) with
    | true => rw [Bool.true_or, Bool.not_true, Bool.and_false]
    | false => rw [hrow r hr hgone, Bool.not_false, Bool.and_true, Bool.false_or]
  · intro k hk
    rcases Bool.or_eq_true_iff.mp hk with hgone | hdeleted
    · exact h.spent k hgone
    · rw [keysWhere, Option.any_eq_true] at hdeleted
      obtain ⟨r, hr, hpr⟩ := hdeleted
      rcases h.get_cases k with hsame | ⟨hnone, -⟩
      · exact ⟨r, by rw [← hsame, hr], hp r hpr⟩
      · rw [hnone] at hr
        cases hr

end Relational.Table
