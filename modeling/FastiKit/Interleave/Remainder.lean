import FastiKit.Interleave.Pool

/- What is left of a program while it runs. `Only A Q` says that a program calls
   operations that satisfy `Q`, as long as the answers it gets satisfy `A`.
   `Always P` says that `P` holds of a program and of whatever can be left of it.
   Neither speaks of a state: `step_code` is what one step leaves of a thread, so
   every pool keeps the second, and the first while its answers are as assumed. -/
namespace Interleave

variable {Op : Type} {Res : Op → Type} {σ Req ε α β Env : Type}

namespace Prog

/-- Every operation it calls satisfies `Q`, while every answer it gets satisfies `A`. -/
def Only (A : (op : Op) → Res op → Prop) (Q : Op → Prop) : Prog Op Res ε α → Prop
  | .call op k => Q op ∧ ∀ r, A op r → (k r).Only A Q
  | _ => True

/-- It satisfies `P`, and so does all that can be left of it. -/
def Always (P : Prog Op Res ε α → Prop) : Prog Op Res ε α → Prop
  | .ret a => P (.ret a)
  | .raise e => P (.raise e)
  | .call op k => P (.call op k) ∧ ∀ r, (k r).Always P

theorem uses_any (p : Prog Op Res ε α) : p.Uses (fun _ => True) (fun _ => True) := by
  induction p with
  | ret a => trivial
  | raise e => trivial
  | call op k ih => exact ⟨trivial, ih⟩

/-- What a program may return, it does if it has an outcome. -/
theorem Uses.outcome {Q : Op → Prop} {L : Except ε α → Prop} {p : Prog Op Res ε α} (h : p.Uses Q L)
    {out : Except ε α} (hout : p.outcome = some out) : L out := by
  cases p with
  | ret a => cases hout; exact h
  | raise e => cases hout; exact h
  | call op k => cases hout

section Only
variable {A : (op : Op) → Res op → Prop} {Q Q' : Op → Prop}

theorem only_of_uses {L : Except ε α → Prop} (hQ : ∀ op, Q' op → Q op) {p : Prog Op Res ε α}
    (h : p.Uses Q' L) : p.Only A Q := by
  induction p with
  | ret a => trivial
  | raise e => trivial
  | call op k ih => exact ⟨hQ op h.1, fun r _ => ih r (h.2 r)⟩

/-- A program, and what follows it. -/
theorem Only.bind {L : Except ε α → Prop} {p : Prog Op Res ε α} {f : α → Prog Op Res ε β} (h : p.Only A Q)
    (hL : p.Uses (fun _ => True) L) (hf : ∀ a, L (.ok a) → (f a).Only A Q) : (p >>= f).Only A Q := by
  induction p with
  | ret a => exact hf a hL
  | raise e => trivial
  | call op k ih => exact ⟨h.1, fun r hr => ih r (h.2 r hr) (hL.2 r)⟩

/-- A program that calls nothing else, and what follows it. -/
theorem only_bind {L : Except ε α → Prop} (hQ : ∀ op, Q' op → Q op) {p : Prog Op Res ε α}
    {f : α → Prog Op Res ε β} (h : p.Uses Q' L) (hf : ∀ a, L (.ok a) → (f a).Only A Q) :
    (p >>= f).Only A Q :=
  (only_of_uses hQ h).bind (h.mono (fun _ _ => trivial) (fun _ h => h)) hf

theorem Only.tryCatch {p : Prog Op Res ε α} {handler : ε → Prog Op Res ε α} (h : p.Only A Q)
    (hhandler : ∀ e, (handler e).Only A Q) : (tryCatchThe ε p handler : Prog Op Res ε α).Only A Q := by
  induction p with
  | ret a => trivial
  | raise e => exact hhandler e
  | call op k ih => exact ⟨h.1, fun r hr => ih r (h.2 r hr)⟩

end Only

section Always
variable {P : Prog Op Res ε α → Prop}

theorem Always.now {p : Prog Op Res ε α} (h : p.Always P) : P p := by
  cases p with
  | ret a => exact h
  | raise e => exact h
  | call op k => exact h.1

theorem always_of_uses {Q : Op → Prop} {L : Except ε α → Prop} (hP : ∀ q : Prog Op Res ε α, q.Uses Q L → P q)
    {p : Prog Op Res ε α} (h : p.Uses Q L) : p.Always P := by
  induction p with
  | ret a => exact hP _ h
  | raise e => exact hP _ h
  | call op k ih => exact ⟨hP _ h, fun r => ih r (h.2 r)⟩

/-- While the first part runs, what is left is some of it and all of the second. -/
theorem always_bind {P : Prog Op Res ε β → Prop} {Q : Op → Prop} {L : Except ε α → Prop} {p : Prog Op Res ε α}
    {f : α → Prog Op Res ε β} (hP : ∀ q : Prog Op Res ε α, q.Uses Q L → P (q >>= f)) (h : p.Uses Q L)
    (hf : ∀ a, L (.ok a) → (f a).Always P) : (p >>= f).Always P := by
  induction p with
  | ret a => exact hf a h
  | raise e => exact hP _ h
  | call op k ih => exact ⟨hP _ h, fun r => ih r (h.2 r)⟩

end Always

end Prog

section Pools
variable {sys : System Op Res σ Req ε α Env} {s s' : Pool Op Res σ Req ε α} {a : Action Req Env}

/-- Where a thread comes from: it was there with the same code, it got an answer, or it
serves a new request. -/
theorem step_code (ha : sys.step s a = some s') {th' : Thread Op Res ε α Req} (hth' : th' ∈ s'.threads) :
    (∃ th ∈ s.threads, th.req = th'.req ∧ (th'.live = true → th.live = true) ∧ (th'.code = th.code ∨
      ∃ i op k, s.Waits i op ∧ a = .run i ∧ th.code = .call op k ∧ th'.code = k (sys.exec op s.state).1)) ∨
    a = .spawn th'.req ∧ th'.code = sys.program th'.req := by
  cases a with
  | spawn req =>
    obtain ⟨-, rfl⟩ := System.step_spawn ha
    rcases List.mem_append.mp hth' with hold | hnew
    · exact .inl ⟨th', hold, rfl, fun h => h, .inl rfl⟩
    · rw [List.mem_singleton.mp hnew]
      exact .inr ⟨rfl, rfl⟩
  | run i =>
    obtain ⟨req, op, k, hi, rfl⟩ := System.step_run ha
    rcases List.mem_or_eq_of_mem_set hth' with hold | rfl
    · exact .inl ⟨th', hold, rfl, fun h => h, .inl rfl⟩
    · refine .inl ⟨_, List.mem_of_getElem? hi, rfl, fun h => h, .inr ⟨i, op, k, ?_, rfl, rfl, rfl⟩⟩
      exact ⟨_, hi, rfl, rfl⟩
  | cancel i =>
    obtain ⟨th, hi, rfl⟩ := System.step_cancel ha
    rcases List.mem_or_eq_of_mem_set hth' with hold | rfl
    · exact .inl ⟨th', hold, rfl, fun h => h, .inl rfl⟩
    · exact .inl ⟨th, List.mem_of_getElem? hi, rfl, fun h => (by cases h), .inl rfl⟩
  | env e =>
    obtain ⟨w, -, rfl⟩ := System.step_env ha
    exact .inl ⟨th', hth', rfl, fun h => h, .inl rfl⟩

/-- One step, when its answer is as assumed. -/
theorem step_only {A : (op : Op) → Res op → Prop} {Q : Req → Op → Prop}
    (hprog : ∀ req, (sys.program req).Only A (Q req)) (ha : sys.step s a = some s')
    (hA : ∀ i op, a = .run i → s.Waits i op → A op (sys.exec op s.state).1)
    (hs : ∀ th ∈ s.threads, th.code.Only A (Q th.req)) : ∀ th ∈ s'.threads, th.code.Only A (Q th.req) := by
  intro th' hth'
  rcases step_code ha hth' with ⟨th, hth, hreq, -, hcode | ⟨i, op, k, hw, hrun, hcall, hcode⟩⟩ | ⟨-, hcode⟩
  · rw [hcode, ← hreq]
    exact hs th hth
  · have hth := hs th hth
    rw [hcall, hreq] at hth
    rw [hcode]
    exact hth.2 _ (hA i op hrun hw)
  · rw [hcode]
    exact hprog _

variable {P : Req → Prog Op Res ε α → Prop}

/-- What always holds of the programs holds of the code of every thread, in every pool
reached. -/
theorem System.Steps.always {C : Pool Op Res σ Req ε α → Action Req Env → Prop}
    (hprog : ∀ req, (sys.program req).Always (P req)) (h : sys.Steps C s s')
    (hs : ∀ th ∈ s.threads, th.code.Always (P th.req)) : ∀ th ∈ s'.threads, th.code.Always (P th.req) := by
  refine h.invariant (J := fun v => ∀ th ∈ v.threads, th.code.Always (P th.req)) ?_ hs
  intro v a v' hv _ ha th' hth'
  rcases step_code ha hth' with ⟨th, hth, hreq, -, hcode | ⟨i, op, k, -, -, hcall, hcode⟩⟩ | ⟨-, hcode⟩
  · rw [hcode, ← hreq]
    exact hv th hth
  · have hth := hv th hth
    rw [hcall, hreq] at hth
    rw [hcode]
    exact hth.2 _
  · rw [hcode]
    exact hprog _

end Pools

end Interleave
