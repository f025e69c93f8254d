import FastiKit.Interleave.Pool
import Mathlib.Logic.Function.Basic

/- What a program may call next, and what it returns, by the answers it got. A
   monitor follows one program: it has a state, allows some operations in it, and
   moves with every answer (`Follows`); in a pool each thread has a monitor state of
   its own, and what a thread waits to call its monitor allows (`Watches`).
   `Prog.Given` goes the other way: it bounds the outcome of a program whose answers
   are known to satisfy something, and `Completes.given` reads that off a run. -/
namespace Interleave

variable {Op : Type} {Res : Op → Type} {σ τ Req ε α β Env : Type}

/-- The start state, the operations allowed in a state, and where an answer leads. -/
structure Monitor (Op : Type) (Res : Op → Type) (τ : Type) where
  start : τ
  allows : τ → Op → Prop
  next : τ → (op : Op) → Res op → τ

namespace Monitor
variable (M : Monitor Op Res τ)

/-- From this monitor state on, the program calls only what the monitor allows, and
has an outcome within `K`. -/
def Follows (K : Except ε α → τ → Prop) : Prog Op Res ε α → τ → Prop
  | .ret a, m => K (.ok a) m
  | .raise e, m => K (.error e) m
  | .call op k, m => M.allows m op ∧ ∀ r, Follows K (k r) (M.next m op r)

/-- Every thread follows the monitor, from its own state. -/
def Watches (s : Pool Op Res σ Req ε α) (m : Nat → τ) : Prop :=
  ∀ i th, s.threads[i]? = some th → M.Follows (fun _ _ => True) th.code (m i)

/-- The threads' states after an action. -/
def advance (sys : System Op Res σ Req ε α Env) (s : Pool Op Res σ Req ε α) (m : Nat → τ) :
    Action Req Env → Nat → τ
  | .spawn _ => Function.update m s.threads.length M.start
  | .run i =>
    match s.pending i with
    | some op => Function.update m i (M.next (m i) op (sys.exec op s.state).1)
    | none => m
  | .cancel _ => m
  | .env _ => m

variable {M}

/-! Programs. -/

theorem Follows.mono {K K' : Except ε α → τ → Prop} (hK : ∀ out m, K out m → K' out m) {p : Prog Op Res ε α}
    {m : τ} (h : M.Follows K p m) : M.Follows K' p m := by
  induction p generalizing m with
  | ret a => exact hK _ _ h
  | raise e => exact hK _ _ h
  | call op k ih => exact ⟨h.1, fun r => ih r (h.2 r)⟩

theorem follows_bind (K : Except ε β → τ → Prop) (f : α → Prog Op Res ε β) (p : Prog Op Res ε α) (m : τ) :
    M.Follows K (p >>= f) m ↔ M.Follows (fun out m => match out with
      | .ok a => M.Follows K (f a) m
      | .error e => K (.error e) m) p m := by
  induction p generalizing m with
  | ret a => rfl
  | raise e => rfl
  | call op k ih => exact and_congr_right fun _ => forall_congr' fun r => ih r _

theorem follows_tryCatch (K : Except ε α → τ → Prop) (h : ε → Prog Op Res ε α) (p : Prog Op Res ε α) (m : τ) :
    M.Follows K (tryCatchThe ε p h) m ↔ M.Follows (fun out m => match out with
      | .ok a => K (.ok a) m
      | .error e => M.Follows K (h e) m) p m := by
  induction p generalizing m with
  | ret a => rfl
  | raise e => rfl
  | call op k ih => exact and_congr_right fun _ => forall_congr' fun r => ih r _

/-- A program of operations that are always allowed. -/
theorem follows_of_uses {Q : Op → Prop} {L : Except ε α → Prop} (hQ : ∀ op, Q op → ∀ m, M.allows m op)
    {p : Prog Op Res ε α} (hp : p.Uses Q L) (m : τ) : M.Follows (fun out _ => L out) p m := by
  induction p generalizing m with
  | ret a => exact hp
  | raise e => exact hp
  | call op k ih => exact ⟨hQ op hp.1 m, fun r => ih r (hp.2 r) _⟩

/-! Pools. -/

section Pools
variable {sys : System Op Res σ Req ε α Env} {s s' : Pool Op Res σ Req ε α} {m : Nat → τ}

theorem watches_start (w : σ) (m : Nat → τ) :
    M.Watches (System.start w : Pool Op Res σ Req ε α) m := by
  intro i th hth
  cases hth

/-- What a thread waits to call is allowed. -/
theorem Watches.allows (h : M.Watches s m) {i : Nat} {op : Op} (hw : s.Waits i op) : M.allows (m i) op := by
  obtain ⟨⟨req, code, live⟩, hth, -, hop⟩ := hw
  have hfollows := h i _ hth
  cases code with
  | ret a => cases hop
  | raise e => cases hop
  | call op' k =>
    cases hop
    exact hfollows.1

theorem advance_spawn (req : Req) :
    M.advance sys s m (.spawn req) = Function.update m s.threads.length M.start := rfl

theorem advance_run {i : Nat} {op : Op} (hw : s.Waits i op) :
    M.advance sys s m (.run i) = Function.update m i (M.next (m i) op (sys.exec op s.state).1) := by
  simp only [advance, Pool.pending_of_waits hw]

theorem Watches.step (hprog : ∀ req, M.Follows (fun _ _ => True) (sys.program req) M.start)
    (h : M.Watches s m) {a : Action Req Env} (ha : sys.step s a = some s') :
    M.Watches s' (M.advance sys s m a) := by
  cases a with
  | spawn req =>
    obtain ⟨-, rfl⟩ := System.step_spawn ha
    intro i th hth
    rcases Nat.lt_or_ge i s.threads.length with hi | hi
    · rw [List.getElem?_append_left hi] at hth
      rw [advance_spawn, Function.update_of_ne (Nat.ne_of_lt hi)]
      exact h i th hth
    · rw [List.getElem?_append_right hi, List.getElem?_singleton] at hth
      split at hth
      · next hsub =>
        have hlen : i = s.threads.length := by omega
        cases hth
        rw [advance_spawn, hlen, Function.update_self]
        exact hprog req
      · cases hth
  | run i =>
    obtain ⟨req, op, k, hi, rfl⟩ := System.step_run ha
    have hw : s.Waits i op := ⟨_, hi, rfl, rfl⟩
    rw [advance_run hw]
    intro j th hth
    by_cases hij : i = j
    · subst hij
      rw [List.getElem?_set_self (List.getElem?_eq_some_iff.mp hi).1] at hth
      cases hth
      rw [Function.update_self]
      exact (h i _ hi).2 _
    · rw [List.getElem?_set_ne hij] at hth
      rw [Function.update_of_ne (fun e => hij e.symm)]
      exact h j th hth
  | cancel i =>
    obtain ⟨th', hi, rfl⟩ := System.step_cancel ha
    intro j th hth
    by_cases hij : i = j
    · subst hij
      rw [List.getElem?_set_self (List.getElem?_eq_some_iff.mp hi).1] at hth
      cases hth
      exact h i th' hi
    · rw [List.getElem?_set_ne hij] at hth
      exact h j th hth
  | env e =>
    obtain ⟨w, -, rfl⟩ := System.step_env ha
    exact h

/-- A thread that waits after an action waited before, is new, or has just run. -/
theorem advance_waits {a : Action Req Env} (ha : sys.step s a = some s') {j : Nat} {op : Op}
    (hw : s'.Waits j op) :
    s.Waits j op ∧ M.advance sys s m a j = m j ∨ M.advance sys s m a j = M.start ∨
      ∃ op₀, a = .run j ∧ s.Waits j op₀ ∧ M.advance sys s m a j = M.next (m j) op₀ (sys.exec op₀ s.state).1 := by
  obtain ⟨th, hth, hlive, hop⟩ := hw
  cases a with
  | spawn req =>
    obtain ⟨-, rfl⟩ := System.step_spawn ha
    rcases Nat.lt_or_ge j s.threads.length with hj | hj
    · rw [List.getElem?_append_left hj] at hth
      rw [advance_spawn, Function.update_of_ne (Nat.ne_of_lt hj)]
      exact .inl ⟨⟨th, hth, hlive, hop⟩, rfl⟩
    · rw [List.getElem?_append_right hj, List.getElem?_singleton] at hth
      split at hth
      · next hsub =>
        have hlen : j = s.threads.length := by omega
        rw [advance_spawn, hlen, Function.update_self]
        exact .inr (.inl rfl)
      · cases hth
  | run i =>
    obtain ⟨req, op₀, k, hi, rfl⟩ := System.step_run ha
    have hw₀ : s.Waits i op₀ := ⟨_, hi, rfl, rfl⟩
    rw [advance_run hw₀]
    by_cases hij : i = j
    · subst hij
      rw [Function.update_self]
      exact .inr (.inr ⟨op₀, rfl, hw₀, rfl⟩)
    · rw [List.getElem?_set_ne hij] at hth
      rw [Function.update_of_ne (fun e => hij e.symm)]
      exact .inl ⟨⟨th, hth, hlive, hop⟩, rfl⟩
  | cancel i =>
    obtain ⟨th', hi, rfl⟩ := System.step_cancel ha
    by_cases hij : i = j
    · subst hij
      rw [List.getElem?_set_self (List.getElem?_eq_some_iff.mp hi).1] at hth
      cases hth
      cases hlive
    · rw [List.getElem?_set_ne hij] at hth
      exact .inl ⟨⟨th, hth, hlive, hop⟩, rfl⟩
  | env e =>
    obtain ⟨w, -, rfl⟩ := System.step_env ha
    exact .inl ⟨⟨th, hth, hlive, hop⟩, rfl⟩

end Pools

end Monitor

/-! Outcomes, given the answers. -/

/-- If every answer the program gets satisfies `A`, its outcome satisfies `L`. -/
def Prog.Given (A : (op : Op) → Res op → Prop) (L : Except ε α → Prop) : Prog Op Res ε α → Prop
  | .ret a => L (.ok a)
  | .raise e => L (.error e)
  | .call op k => ∀ r, A op r → (k r).Given A L

section Given
variable {A : (op : Op) → Res op → Prop}

theorem Prog.given_bind (L : Except ε β → Prop) (f : α → Prog Op Res ε β) (p : Prog Op Res ε α) :
    (p >>= f).Given A L ↔ p.Given A (fun out => match out with
      | .ok a => (f a).Given A L
      | .error e => L (.error e)) := by
  induction p with
  | ret a => rfl
  | raise e => rfl
  | call op k ih => exact forall_congr' fun r => forall_congr' fun _ => ih r

theorem Prog.Given.mono {L L' : Except ε α → Prop} (hL : ∀ out, L out → L' out) {p : Prog Op Res ε α}
    (h : p.Given A L) : p.Given A L' := by
  induction p with
  | ret a => exact hL _ h
  | raise e => exact hL _ h
  | call op k ih => exact fun r hr => ih r (h r hr)

/-- What holds of every outcome. -/
theorem Prog.given_of_uses {Q : Op → Prop} {L : Except ε α → Prop} {p : Prog Op Res ε α} (h : p.Uses Q L) :
    p.Given A L := by
  induction p with
  | ret a => exact h
  | raise e => exact h
  | call op k ih => exact fun r _ => ih r (h.2 r)

variable {sys : System Op Res σ Req ε α Env} {C : Pool Op Res σ Req ε α → Action Req Env → Prop}
  {L : Except ε α → Prop}

/-- One action, when the answer that the thread `i` gets in it satisfies `A`. -/
theorem System.step_given {s s' : Pool Op Res σ Req ε α} {a : Action Req Env} (ha : sys.step s a = some s')
    {i : Nat} (hA : ∀ op, s.Waits i op → A op (sys.exec op s.state).1)
    (h : ∃ th, s.threads[i]? = some th ∧ th.code.Given A L) :
    ∃ th, s'.threads[i]? = some th ∧ th.code.Given A L := by
  obtain ⟨th, hth, hgiven⟩ := h
  have hlt : i < s.threads.length := (List.getElem?_eq_some_iff.mp hth).1
  cases a with
  | spawn req =>
    obtain ⟨-, rfl⟩ := System.step_spawn ha
    exact ⟨th, by rw [List.getElem?_append_left hlt]; exact hth, hgiven⟩
  | run j =>
    obtain ⟨req, op, k, hj, rfl⟩ := System.step_run ha
    by_cases hij : j = i
    · subst hij
      rw [hj] at hth
      cases hth
      exact ⟨_, List.getElem?_set_self hlt, hgiven _ (hA op ⟨_, hj, rfl, rfl⟩)⟩
    · exact ⟨th, by rw [List.getElem?_set_ne hij]; exact hth, hgiven⟩
  | cancel j =>
    obtain ⟨th', hj, rfl⟩ := System.step_cancel ha
    by_cases hij : j = i
    · subst hij
      rw [hj] at hth
      cases hth
      exact ⟨_, List.getElem?_set_self hlt, hgiven⟩
    · exact ⟨th, by rw [List.getElem?_set_ne hij]; exact hth, hgiven⟩
  | env e =>
    obtain ⟨w, -, rfl⟩ := System.step_env ha
    exact ⟨th, hth, hgiven⟩

/-- A request whose answers all satisfy `A` is answered within `L`. -/
theorem System.Completes.given {s s' : Pool Op Res σ Req ε α} {req : Req} {out : Except ε α}
    (h : sys.Completes C s req out s') (hp : (sys.program req).Given A L)
    (hA : ∀ v op, sys.Steps C s v → sys.Steps C v s' → v.Waits s.threads.length op →
      A op (sys.exec op v.state).1) : L out := by
  obtain ⟨s₁, s₂, hC, hspawn, hsteps, hC', hrun, hf⟩ := h
  have hlast : sys.Steps C s₂ s' := Relation.ReflTransGen.single ⟨_, hC', hrun⟩
  have hfirst : ∃ th, s₁.threads[s.threads.length]? = some th ∧ th.code.Given A L := by
    obtain ⟨-, rfl⟩ := System.step_spawn hspawn
    exact ⟨_, List.getElem?_concat_length, hp⟩
  have hmid : ∀ v, sys.Steps C v s₂ → sys.Steps C s v →
      (∃ th, v.threads[s.threads.length]? = some th ∧ th.code.Given A L) →
      ∃ th, s₂.threads[s.threads.length]? = some th ∧ th.code.Given A L := by
    intro v hv
    -- from the front, so that every pool on the way is known to lead to the answer
    induction hv using Relation.ReflTransGen.head_induction_on with
    | refl => exact fun _ h => h
    | head hstep hrest ih =>
      intro hv hgiven
      obtain ⟨a, hCa, ha⟩ := hstep
      have hto : sys.Steps C _ s' := Relation.ReflTransGen.head ⟨a, hCa, ha⟩ (hrest.trans hlast)
      exact ih (hv.snoc hCa ha) (System.step_given ha (fun op hw => hA _ op hv hto hw) hgiven)
  have hs₁ : sys.Steps C s s₁ := Relation.ReflTransGen.single ⟨_, hC, hspawn⟩
  obtain ⟨th, hth, hgiven⟩ := System.step_given hrun (fun op hw => hA s₂ op (hs₁.trans hsteps) hlast hw)
    (hmid s₁ hsteps hs₁ hfirst)
  obtain ⟨th', hth', -, hout⟩ := hf
  rw [hth] at hth'
  cases hth'
  cases hcode : th.code with
  | ret a =>
    rw [hcode] at hgiven hout
    cases hout
    exact hgiven
  | raise e =>
    rw [hcode] at hgiven hout
    cases hout
    exact hgiven
  | call op k =>
    rw [hcode] at hout
    cases hout

end Given

end Interleave
