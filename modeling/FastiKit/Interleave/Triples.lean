import FastiKit.Interleave.RelyGuarantee

/- Triples for programs in a regime. `Triple g exec P p Q` says that `p`, let in
   where `P` holds and while the rest of the pool stays within the rely, meets the
   guarantee with every operation and ends where `Q` holds. The rules follow the
   constructs of a program, so a proof about a program has the shape of the program;
   `Triple.ready` turns the result into the obligation of a request. `Unblocked` is
   the other half: a thread that nothing blocks can be run to its outcome alone. -/
namespace Interleave

variable {Op : Type} {Res : Op → Type} {σ Req ε α β Env : Type}

section Triples
variable {g : Regime Op σ} {exec : (op : Op) → σ → Res op × σ}

/-- From `P`, the program meets the guarantee and ends in `Q`. -/
def Triple (g : Regime Op σ) (exec : (op : Op) → σ → Res op × σ) (P : σ → Prop) (p : Prog Op Res ε α)
    (Q : Except ε α → σ → Prop) : Prop :=
  ∀ op s s', g.guar op s s' → P s' → After g exec (fun out op s s' => g.guar op s s' ∧ Q out s') p op s s'

/-- The postcondition of a program that goes on with `R` and can always raise. -/
def orRaise (R : α → σ → Prop) (E : ε → σ → Prop) : Except ε α → σ → Prop
  | .ok a, s => R a s
  | .error e, s => E e s

@[simp] theorem orRaise_ok (R : α → σ → Prop) (E : ε → σ → Prop) (a : α) (s : σ) :
    orRaise R E (.ok a) s ↔ R a s := Iff.rfl

@[simp] theorem orRaise_error (R : α → σ → Prop) (E : ε → σ → Prop) (e : ε) (s : σ) :
    orRaise R E (.error e) s ↔ E e s := Iff.rfl

theorem triple_ret {P : σ → Prop} {Q : Except ε α → σ → Prop} {a : α} (h : ∀ s, P s → Q (.ok a) s) :
    Triple g exec P (.ret a : Prog Op Res ε α) Q :=
  fun _ _ s' hg hs => ⟨hg, h s' hs⟩

theorem triple_raise {P : σ → Prop} {Q : Except ε α → σ → Prop} {e : ε} (h : ∀ s, P s → Q (.error e) s) :
    Triple g exec P (.raise e : Prog Op Res ε α) Q :=
  fun _ _ s' hg hs => ⟨hg, h s' hs⟩

/-- An operation: where it fires, the rest of the pool has moved the state within its rely. -/
theorem triple_call {P : σ → Prop} {op : Op} {k : Res op → Prog Op Res ε α} {R : Res op → σ → Prop}
    {Q : Except ε α → σ → Prop}
    (hop : ∀ s v, P s → g.rely op s v → g.cond op v → g.guar op v (exec op v).2 ∧ R (exec op v).1 (exec op v).2)
    (hk : ∀ r, Triple g exec (R r) (k r) Q) : Triple g exec P (.call op k) Q := by
  intro op₀ s s' hg hs
  refine ⟨hg, ?_⟩
  intro v hr hc
  obtain ⟨hg', hR⟩ := hop s' v hs hr hc
  exact hk _ op v _ hg' hR

theorem Triple.weaken {P P' : σ → Prop} {p : Prog Op Res ε α} {Q Q' : Except ε α → σ → Prop}
    (h : Triple g exec P p Q) (hP : ∀ s, P' s → P s) (hQ : ∀ out s, Q out s → Q' out s) :
    Triple g exec P' p Q' := by
  intro op s s' hg hs
  apply After.mono _ _ _ _ _ (h op s s' hg (hP s' hs))
  exact fun out _ _ v hK => ⟨hK.1, hQ out v hK.2⟩

theorem triple_bind {P : σ → Prop} {p : Prog Op Res ε α} {f : α → Prog Op Res ε β} {R : α → σ → Prop}
    {Q : Except ε β → σ → Prop} (hp : Triple g exec P p (orRaise R (fun e s => Q (.error e) s)))
    (hf : ∀ a, Triple g exec (R a) (f a) Q) : Triple g exec P (p >>= f) Q := by
  intro op s s' hg hs
  rw [after_bind]
  apply After.mono _ _ _ _ _ (hp op s s' hg hs)
  intro out op' v v' hK
  cases out with
  | ok a => exact hf a op' v v' hK.1 hK.2
  | error e => exact hK

theorem triple_tryCatch {P : σ → Prop} {p : Prog Op Res ε α} {handle : ε → Prog Op Res ε α} {R : ε → σ → Prop}
    {Q : Except ε α → σ → Prop} (hp : Triple g exec P p (orRaise (fun a s => Q (.ok a) s) R))
    (hhandle : ∀ e, Triple g exec (R e) (handle e) Q) : Triple g exec P (tryCatchThe ε p handle) Q := by
  intro op s s' hg hs
  rw [after_tryCatch]
  apply After.mono _ _ _ _ _ (hp op s s' hg hs)
  intro out op' v v' hK
  cases out with
  | ok a => exact hK
  | error e => exact hhandle e op' v v' hK.1 hK.2

/-- A program verified from `P` is ready where `P` holds. -/
theorem Triple.ready {P : σ → Prop} {p : Prog Op Res ε α} {Q : Except ε α → σ → Prop}
    (h : Triple g exec P p Q) {s : σ} (hs : P s) (hnext : p.outcome = none) {op : Op} (hrefl : g.guar op s s) :
    Ready g exec (fun out op s s' => g.guar op s s' ∧ Q out s') p s := by
  cases p with
  | ret a => cases hnext
  | raise e => cases hnext
  | call _ k => exact (h op s s hrefl hs).2

end Triples

section Outcomes
variable {sys : System Op Res σ Req ε α Env} {g : Regime Op σ} {C : Pool Op Res σ Req ε α → Action Req Env → Prop}
  {J : Pool Op Res σ Req ε α → Prop} {I : σ → Prop} {post : Req → Except ε α → σ → Prop}

/-- A thread that has an outcome had it before the step, or reaches it by the step. -/
theorem step_finished {s s' : Pool Op Res σ Req ε α} {a : Action Req Env} (ha : sys.step s a = some s')
    (hprog : ∀ req, a = .spawn req → (sys.program req).outcome = none) {i : Nat} {req : Req} {out : Except ε α}
    (hf : s'.Finished i req out) : s.Finished i req out ∨ a = .run i := by
  obtain ⟨th, hth, hreq, hout⟩ := hf
  cases a with
  | spawn req' =>
    obtain ⟨-, rfl⟩ := System.step_spawn ha
    rw [List.getElem?_append] at hth
    split at hth
    · exact .inl ⟨th, hth, hreq, hout⟩
    · -- a new thread has no outcome
      rw [List.mem_singleton.mp (List.mem_of_getElem? hth), hprog req' rfl] at hout
      cases hout
  | run j =>
    obtain ⟨req', op, k, hj, rfl⟩ := System.step_run ha
    by_cases hij : j = i
    · exact .inr (by rw [hij])
    · rw [List.getElem?_set_ne hij] at hth
      exact .inl ⟨th, hth, hreq, hout⟩
  | cancel j =>
    obtain ⟨th', hj, rfl⟩ := System.step_cancel ha
    by_cases hij : j = i
    · subst hij
      rw [List.getElem?_set_self (List.getElem?_eq_some_iff.mp hj).1] at hth
      cases hth
      exact .inl ⟨th', hj, hreq, hout⟩
    · rw [List.getElem?_set_ne hij] at hth
      exact .inl ⟨th, hth, hreq, hout⟩
  | env e =>
    obtain ⟨w, -, rfl⟩ := System.step_env ha
    exact .inl ⟨th, hth, hreq, hout⟩

/-- A thread keeps its place and its request. -/
theorem step_keeps_request {s s' : Pool Op Res σ Req ε α} {a : Action Req Env} (ha : sys.step s a = some s')
    {i : Nat} {th : Thread Op Res ε α Req} (hth : s.threads[i]? = some th) :
    ∃ th', s'.threads[i]? = some th' ∧ th'.req = th.req := by
  have hlt : i < s.threads.length := (List.getElem?_eq_some_iff.mp hth).1
  cases a with
  | spawn req =>
    obtain ⟨-, rfl⟩ := System.step_spawn ha
    exact ⟨th, by rw [List.getElem?_append_left hlt, hth], rfl⟩
  | run j =>
    obtain ⟨req, op, k, hj, rfl⟩ := System.step_run ha
    by_cases hij : j = i
    · subst hij
      rw [hth] at hj
      cases hj
      exact ⟨_, List.getElem?_set_self hlt, rfl⟩
    · exact ⟨th, by rw [List.getElem?_set_ne hij, hth], rfl⟩
  | cancel j =>
    obtain ⟨th', hj, rfl⟩ := System.step_cancel ha
    by_cases hij : j = i
    · subst hij
      rw [hth] at hj
      cases hj
      exact ⟨_, List.getElem?_set_self hlt, rfl⟩
    · exact ⟨th, by rw [List.getElem?_set_ne hij, hth], rfl⟩
  | env e =>
    obtain ⟨w, -, rfl⟩ := System.step_env ha
    exact ⟨th, hth, rfl⟩

/-- A promise that no later step breaks holds of every outcome, in every pool reached. -/
theorem Sound.outcomes (hs : Sound sys g C J I post)
    (hkeep : ∀ s a s', PoolOk sys g J I post s → C s a → sys.step s a = some s' →
      ∀ i req out, s.Finished i req out → post req out s.state → post req out s'.state)
    {s s' : Pool Op Res σ Req ε α} (h : sys.Steps C s s') (hok : PoolOk sys g J I post s)
    (hpost : ∀ i req out, s.Finished i req out → post req out s.state) :
    PoolOk sys g J I post s' ∧ ∀ i req out, s'.Finished i req out → post req out s'.state := by
  refine h.invariant (J := fun v => PoolOk sys g J I post v ∧
    ∀ i req out, v.Finished i req out → post req out v.state) ?_ ⟨hok, hpost⟩
  intro v a v' hv hC ha
  refine ⟨hs.step hv.1 hC ha, ?_⟩
  intro i req out hf
  have hprog : ∀ req, a = .spawn req → (sys.program req).outcome = none := by
    rintro req rfl
    exact ready_next (hs.spawn v req hv.1.1 hv.1.2.1 hC (System.step_spawn ha).1)
  rcases step_finished ha hprog hf with hold | rfl
  · exact hkeep v a v' hv.1 hC ha i req out hold (hv.2 i req out hold)
  · exact hs.finish hv.1 hC ha hf

end Outcomes

section Solo
variable {sys : System Op Res σ Req ε α Env}

/-- Nothing blocks the program while it runs alone. -/
def Unblocked (exec : (op : Op) → σ → Res op × σ) (cond : Op → σ → Prop) : Prog Op Res ε α → σ → Prop
  | .ret _, _ => True
  | .raise _, _ => True
  | .call op k, s => cond op s ∧ Unblocked exec cond (k (exec op s).1) (exec op s).2

/-- Nothing blocks a program whose operations keep what makes them possible. -/
theorem unblocked_of_kept {exec : (op : Op) → σ → Res op × σ} {cond : Op → σ → Prop} {Q : Op → Prop}
    {L : Except ε α → Prop} {F : σ → Prop} (hcond : ∀ op s, Q op → F s → cond op s)
    (hkeep : ∀ op s, Q op → F s → F (exec op s).2) :
    ∀ (p : Prog Op Res ε α) (s : σ), p.Uses Q L → F s → Unblocked exec cond p s := by
  intro p
  induction p with
  | ret a => exact fun _ _ _ => trivial
  | raise e => exact fun _ _ _ => trivial
  | call op k ih =>
    intro s huses hs
    exact ⟨hcond op s huses.1 hs, ih _ _ (huses.2 _) (hkeep op s huses.1 hs)⟩

theorem set_of_getElem? {τ : Type} {l : List τ} {i : Nat} {a : τ} (h : l[i]? = some a) : l.set i a = l := by
  obtain ⟨hlt, rfl⟩ := List.getElem?_eq_some_iff.mp h
  exact List.set_getElem_self hlt

/-- A thread that nothing blocks runs to its outcome while no other thread moves. -/
theorem Unblocked.finishes {cond : Op → σ → Prop} {req : Req}
    (hrespond : ∀ out w, sys.respond req out w = w) :
    ∀ (p : Prog Op Res ε α) (s : Pool Op Res σ Req ε α) (i : Nat),
      s.threads[i]? = some ⟨req, p, true⟩ → Unblocked sys.exec cond p s.state →
      ∃ s' p', sys.Steps (fun v a => a = .run i ∧ ∀ op, v.Waits i op → cond op v.state) s s' ∧
        s'.state = (p.eval sys.exec s.state).2 ∧ p'.outcome = some (p.eval sys.exec s.state).1 ∧
        s'.threads = s.threads.set i ⟨req, p', true⟩ := by
  have hsettle : ∀ (p : Prog Op Res ε α) w, sys.settle req p w = w := by
    intro p w
    unfold System.settle
    split
    · exact hrespond _ _
    · rfl
  intro p
  induction p with
  | ret a =>
    intro s i hi _
    refine ⟨s, .ret a, Relation.ReflTransGen.refl, rfl, rfl, ?_⟩
    exact (set_of_getElem? hi).symm
  | raise e =>
    intro s i hi _
    refine ⟨s, .raise e, Relation.ReflTransGen.refl, rfl, rfl, ?_⟩
    exact (set_of_getElem? hi).symm
  | call op k ih =>
    intro s i hi hfree
    have hlt : i < s.threads.length := (List.getElem?_eq_some_iff.mp hi).1
    -- one operation, after which the rest of the program is unblocked again
    have hstep : sys.step s (.run i) = some ⟨(sys.exec op s.state).2,
        s.threads.set i ⟨req, k (sys.exec op s.state).1, true⟩⟩ := by
      simp [System.step, hi, hsettle]
    obtain ⟨s', p', hsteps, hstate, hout, hthreads⟩ := ih (sys.exec op s.state).1
      ⟨(sys.exec op s.state).2, s.threads.set i ⟨req, k (sys.exec op s.state).1, true⟩⟩ i
      (List.getElem?_set_self hlt) hfree.2
    refine ⟨s', p', Relation.ReflTransGen.head ⟨.run i, ⟨rfl, ?_⟩, hstep⟩ hsteps, hstate, hout, ?_⟩
    · intro op' hw
      rw [System.waits_unique hw ⟨_, hi, rfl, rfl⟩]
      exact hfree.1
    · simpa using hthreads

end Solo

end Interleave
