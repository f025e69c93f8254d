import Mathlib.Logic.Function.Basic
import Mathlib.Data.List.Nodup

/- The sessions of a database, by number. A session that is not connected is
   idle. What a session has taken for itself, by a lock on a row or by inserting
   one nobody else can see, belongs to no other: `Apart`. -/
namespace Relational

section Ownership
variable {τ κ : Type}

/-- No key belongs to two sessions. -/
def Apart (owned : τ → List κ) (sessions : Nat → τ) : Prop :=
  ∀ i j, i ≠ j → ∀ k ∈ owned (sessions i), k ∉ owned (sessions j)

/-- One session takes keys that belong to no other. -/
theorem Apart.update {owned : τ → List κ} {sessions : Nat → τ} (hs : Apart owned sessions) {i : Nat}
    {new : τ} (hnew : ∀ j, j ≠ i → ∀ k ∈ owned new, k ∉ owned (sessions j)) :
    Apart owned (Function.update sessions i new) := by
  intro j l hjl k hj hl
  simp only [Function.update_apply] at hj hl
  split at hj
  · next h =>
    rw [if_neg (by rw [← h]; exact Ne.symm hjl)] at hl
    exact hnew l (by rw [← h]; exact Ne.symm hjl) k hj hl
  · split at hl
    · next hij _ => exact hnew j hij k hl hj
    · exact hs j l hjl k hj hl

/-- One session keeps some of its keys. -/
theorem Apart.shrink {owned : τ → List κ} {sessions : Nat → τ} (hs : Apart owned sessions) {i : Nat}
    {new : τ} (hnew : owned new ⊆ owned (sessions i)) : Apart owned (Function.update sessions i new) :=
  hs.update (fun j hji k hk => hs i j (Ne.symm hji) k (hnew hk))

end Ownership

section Sessions
variable {τ κ : Type} [Inhabited τ]

/-- The session `i`; the default is a session that does nothing. -/
def sessionAt (sessions : List τ) (i : Nat) : τ := sessions[i]?.getD default

theorem sessionAt_of_some {sessions : List τ} {i : Nat} {session : τ} (h : sessions[i]? = some session) :
    sessionAt sessions i = session := by
  simp [sessionAt, h]

theorem sessionAt_of_none {sessions : List τ} {i : Nat} (h : sessions[i]? = none) :
    sessionAt sessions i = default := by
  simp [sessionAt, h]

theorem sessionAt_set {sessions : List τ} {i : Nat} {old : τ} (hi : sessions[i]? = some old) (new : τ) :
    sessionAt (sessions.set i new) = Function.update (sessionAt sessions) i new := by
  have hlt : i < sessions.length := (List.getElem?_eq_some_iff.mp hi).1
  funext j
  unfold sessionAt
  rw [List.getElem?_set]
  by_cases hj : i = j
  · subst hj
    simp [hlt]
  · simp [hj, Ne.symm hj]

theorem sessionAt_connect (sessions : List τ) : sessionAt (sessions ++ [default]) = sessionAt sessions := by
  funext j
  simp only [sessionAt, List.getElem?_append]
  split
  · rfl
  · next hj =>
    rw [List.getElem?_eq_none (Nat.le_of_not_lt hj)]
    cases (j - sessions.length) <;> rfl

theorem Apart.init {owned : τ → List κ} (h : owned default = []) : Apart owned (sessionAt []) := by
  intro i j hij k hk
  simp [sessionAt, h] at hk

end Sessions

end Relational
