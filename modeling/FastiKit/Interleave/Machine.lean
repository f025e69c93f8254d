import Mathlib.Logic.Relation

/- A machine takes one action at a time: an action leads to a next state, or is
   not possible. Parties that interleave are one machine whose actions name the
   party that moves. What holds in every state a run visits is what holds at its
   start and is kept by every action of it. -/
namespace Interleave

/-- A machine, by its step; `none` when the action is not possible. -/
structure Machine (σ α : Type) where
  step : σ → α → Option σ

namespace Machine
variable {σ α : Type} (M : Machine σ α)

/-- `s'` is reached from `s` by actions that each satisfy `C` where they are taken. -/
def Steps (C : σ → α → Prop) : σ → σ → Prop :=
  Relation.ReflTransGen (fun s s' => ∃ a, C s a ∧ M.step s a = some s')

/-- `s'` is reached from `s`, whatever the actions are. -/
abbrev Reaches : σ → σ → Prop := M.Steps (fun _ _ => True)

/-- A list of actions in order, each of which `c` allows. -/
def runIf (c : σ → α → Bool) (s : σ) : List α → Option σ
  | [] => some s
  | a :: as => if c s a then (M.step s a).bind (fun s' => runIf c s' as) else none

/-- A list of actions in order. -/
abbrev run (s : σ) (as : List α) : Option σ := M.runIf (fun _ _ => true) s as

variable {M}

/-- What every action under `C` keeps, every run under `C` keeps. -/
theorem Steps.invariant {C : σ → α → Prop} {J : σ → Prop}
    (hstep : ∀ s a s', J s → C s a → M.step s a = some s' → J s') {s s' : σ} (h : M.Steps C s s')
    (hs : J s) : J s' := by
  induction h with
  | refl => exact hs
  | tail _ hlast ih =>
    obtain ⟨a, hC, ha⟩ := hlast
    exact hstep _ a _ ih hC ha

theorem Steps.mono {C D : σ → α → Prop} (hCD : ∀ s a, C s a → D s a) {s s' : σ}
    (h : M.Steps C s s') : M.Steps D s s' := by
  refine Relation.ReflTransGen.mono ?_ _ _ h
  intro v v' hv
  obtain ⟨a, hC, ha⟩ := hv
  exact ⟨a, hCD v a hC, ha⟩

/-- A run of the executable machine is a sequence of steps. -/
theorem steps_of_runIf {c : σ → α → Bool} {s s' : σ} {as : List α} (h : M.runIf c s as = some s') :
    M.Steps (fun s a => c s a = true) s s' := by
  induction as generalizing s with
  | nil =>
    rw [← Option.some.inj h]
    exact Relation.ReflTransGen.refl
  | cons a as ih =>
    simp only [runIf] at h
    split at h
    · next hc =>
      obtain ⟨v, hv, hrest⟩ := Option.bind_eq_some_iff.mp h
      exact Relation.ReflTransGen.head ⟨a, hc, hv⟩ (ih hrest)
    · cases h

theorem reaches_of_run {s s' : σ} {as : List α} (h : M.run s as = some s') : M.Reaches s s' :=
  (steps_of_runIf h).mono (fun _ _ _ => trivial)

end Machine

end Interleave
