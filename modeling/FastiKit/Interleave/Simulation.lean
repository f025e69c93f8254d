import FastiKit.Interleave.Pool

/- One system followed by another. If every operation a program calls answers alike in
   related states and leaves them related, so does the program (`eval_related`). If
   every step of one pool can be followed by steps of another, every run can
   (`Steps.simulated`). -/
namespace Interleave

variable {Op : Type} {Res : Op → Type} {σ Req ε α Env : Type}

/-- A program run alone in two related states. -/
theorem Prog.eval_related {exec : (op : Op) → σ → Res op × σ} {R : σ → σ → Prop} {Q : Op → Prop}
    {L : Except ε α → Prop}
    (hop : ∀ op s t, Q op → R s t → (exec op s).1 = (exec op t).1 ∧ R (exec op s).2 (exec op t).2)
    (p : Prog Op Res ε α) : ∀ s t, p.Uses Q L → R s t →
      (p.eval exec s).1 = (p.eval exec t).1 ∧ R (p.eval exec s).2 (p.eval exec t).2 := by
  induction p with
  | ret a => exact fun _ _ _ h => ⟨rfl, h⟩
  | raise e => exact fun _ _ _ h => ⟨rfl, h⟩
  | call op k ih =>
    intro s t huses h
    obtain ⟨hanswer, hrel⟩ := hop op s t huses.1 h
    simp only [Prog.eval_call, hanswer]
    exact ih _ _ _ (huses.2 _) hrel

namespace System
variable {sys : System Op Res σ Req ε α Env} {C D : Pool Op Res σ Req ε α → Action Req Env → Prop}
  {R : Pool Op Res σ Req ε α → Pool Op Res σ Req ε α → Prop}

/-- Steps that follow steps follow runs. -/
theorem Steps.simulated
    (hstep : ∀ s a s' t, R s t → C s a → sys.step s a = some s' → ∃ t', sys.Steps D t t' ∧ R s' t')
    {s s' t : Pool Op Res σ Req ε α} (h : sys.Steps C s s') (hR : R s t) : ∃ t', sys.Steps D t t' ∧ R s' t' := by
  induction h with
  | refl => exact ⟨t, Relation.ReflTransGen.refl, hR⟩
  | tail _ hlast ih =>
    obtain ⟨u, hu, hRu⟩ := ih
    obtain ⟨a, hC, ha⟩ := hlast
    obtain ⟨t', ht', hR'⟩ := hstep _ a _ u hRu hC ha
    exact ⟨t', hu.trans ht', hR'⟩

end System

end Interleave
