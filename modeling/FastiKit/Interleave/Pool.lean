import FastiKit.Interleave.Program

/- Any number of requests served at once over one shared state. A pool holds
   the state and one thread per request ever made; a step lets a new request
   in, runs one operation of one thread, cancels a thread, or lets the
   environment act. A thread that reaches its outcome responds in the same step
   as its last operation: nothing runs in between that could tell. -/
namespace Interleave

/-- What a service is made of: the meaning of its operations, the program of
each request, which requests can be made in a state, what a response leaves
behind, and what the environment can do. -/
structure System (Op : Type) (Res : Op → Type) (σ Req ε α Env : Type) where
  exec : (op : Op) → σ → Res op × σ
  program : Req → Prog Op Res ε α
  accepts : σ → Req → Bool
  respond : Req → Except ε α → σ → σ
  env : Env → σ → Option σ

/-- A request and what is left of its program; `live` is false once the
request was cancelled. -/
structure Thread (Op : Type) (Res : Op → Type) (ε α Req : Type) where
  req : Req
  code : Prog Op Res ε α
  live : Bool

structure Pool (Op : Type) (Res : Op → Type) (σ Req ε α : Type) where
  state : σ
  threads : List (Thread Op Res ε α Req)

inductive Action (Req Env : Type) where
  | spawn (req : Req)
  | run (i : Nat)
  | cancel (i : Nat)
  | env (e : Env)

variable {Op : Type} {Res : Op → Type} {σ Req ε α Env : Type}

/-- The thread `i` is live and calls `op` next. -/
def Pool.Waits (s : Pool Op Res σ Req ε α) (i : Nat) (op : Op) : Prop :=
  ∃ th, s.threads[i]? = some th ∧ th.live = true ∧ th.code.next = some op

/-- The thread `i` serves `req` and has the outcome `out`. -/
def Pool.Finished (s : Pool Op Res σ Req ε α) (i : Nat) (req : Req) (out : Except ε α) : Prop :=
  ∃ th, s.threads[i]? = some th ∧ th.req = req ∧ th.code.outcome = some out

/-- The operation the thread `i` waits to call. -/
def Pool.pending (s : Pool Op Res σ Req ε α) (i : Nat) : Option Op :=
  s.threads[i]?.bind (fun th => if th.live then th.code.next else none)

theorem Pool.waits_of_pending {s : Pool Op Res σ Req ε α} {i : Nat} {op : Op}
    (h : s.pending i = some op) : s.Waits i op := by
  obtain ⟨th, hth, hop⟩ := Option.bind_eq_some_iff.mp h
  split at hop
  · next hlive => exact ⟨th, hth, hlive, hop⟩
  · cases hop

theorem Pool.pending_of_waits {s : Pool Op Res σ Req ε α} {i : Nat} {op : Op} (h : s.Waits i op) :
    s.pending i = some op := by
  obtain ⟨th, hth, hlive, hop⟩ := h
  simp [pending, hth, hlive, hop]

/-- The operations that threads wait to call. -/
def Pool.waiting (s : Pool Op Res σ Req ε α) : List Op :=
  s.threads.filterMap (fun th => if th.live then th.code.next else none)

theorem Pool.mem_waiting {s : Pool Op Res σ Req ε α} {i : Nat} {op : Op} (h : s.Waits i op) :
    op ∈ s.waiting := by
  obtain ⟨th, hth, hlive, hop⟩ := h
  exact List.mem_filterMap.mpr ⟨th, List.mem_of_getElem? hth, by simp [hlive, hop]⟩

namespace System
variable (sys : System Op Res σ Req ε α Env)

/-- Respond if the program has its outcome. -/
def settle (req : Req) (p : Prog Op Res ε α) (s : σ) : σ :=
  match p.outcome with
  | some out => sys.respond req out s
  | none => s

/-- One step of the pool; `none` when the action is not possible. -/
def step (s : Pool Op Res σ Req ε α) : Action Req Env → Option (Pool Op Res σ Req ε α)
  | .spawn req =>
    if sys.accepts s.state req then
      some { state := sys.settle req (sys.program req) s.state,
             threads := s.threads ++ [⟨req, sys.program req, true⟩] }
    else none
  | .run i =>
    match s.threads[i]? with
    | some ⟨req, .call op k, true⟩ =>
      some { state := sys.settle req (k (sys.exec op s.state).1) (sys.exec op s.state).2,
             threads := s.threads.set i ⟨req, k (sys.exec op s.state).1, true⟩ }
    | _ => none
  | .cancel i =>
    match s.threads[i]? with
    | some th => some { s with threads := s.threads.set i { th with live := false } }
    | none => none
  | .env e => (sys.env e s.state).map (fun w => { s with state := w })

/-- A list of actions in order; `none` when one of them is not possible. -/
def run (s : Pool Op Res σ Req ε α) : List (Action Req Env) → Option (Pool Op Res σ Req ε α)
  | [] => some s
  | a :: as => (sys.step s a).bind (fun s' => run s' as)

/-- A list of actions in order, each of which `c` allows. -/
def runIf (c : Pool Op Res σ Req ε α → Action Req Env → Bool) (s : Pool Op Res σ Req ε α) :
    List (Action Req Env) → Option (Pool Op Res σ Req ε α)
  | [] => some s
  | a :: as => if c s a then (sys.step s a).bind (fun s' => runIf c s' as) else none

/-- The pool before any request. -/
def start (w : σ) : Pool Op Res σ Req ε α := ⟨w, []⟩

/-- `s'` is reached from `s` by steps that each satisfy `C`. -/
def Steps (C : Pool Op Res σ Req ε α → Action Req Env → Prop) :
    Pool Op Res σ Req ε α → Pool Op Res σ Req ε α → Prop :=
  Relation.ReflTransGen (fun s s' => ∃ a, C s a ∧ sys.step s a = some s')

/-- In `s`, the thread `i` is about to run `op`, and `op` answers `r`. -/
def Fires (s : Pool Op Res σ Req ε α) (i : Nat) (op : Op) (r : Res op) : Prop :=
  s.Waits i op ∧ (sys.exec op s.state).1 = r

/-- A request made in `s` is answered by the step that ends in `s'`. -/
def Completes (C : Pool Op Res σ Req ε α → Action Req Env → Prop) (s : Pool Op Res σ Req ε α)
    (req : Req) (out : Except ε α) (s' : Pool Op Res σ Req ε α) : Prop :=
  ∃ s₁ s₂, C s (.spawn req) ∧ sys.step s (.spawn req) = some s₁ ∧ sys.Steps C s₁ s₂ ∧
    C s₂ (.run s.threads.length) ∧ sys.step s₂ (.run s.threads.length) = some s' ∧
    s'.Finished s.threads.length req out

variable {sys}

theorem step_spawn {s s' : Pool Op Res σ Req ε α} {req : Req}
    (h : sys.step s (.spawn req) = some s') :
    sys.accepts s.state req = true ∧
      s' = ⟨sys.settle req (sys.program req) s.state, s.threads ++ [⟨req, sys.program req, true⟩]⟩ := by
  simp only [step] at h
  split at h
  · next hadm => exact ⟨hadm, (Option.some.inj h).symm⟩
  · cases h

theorem step_run {s s' : Pool Op Res σ Req ε α} {i : Nat} (h : sys.step s (.run i) = some s') :
    ∃ req op k, s.threads[i]? = some ⟨req, .call op k, true⟩ ∧
      s' = ⟨sys.settle req (k (sys.exec op s.state).1) (sys.exec op s.state).2,
        s.threads.set i ⟨req, k (sys.exec op s.state).1, true⟩⟩ := by
  simp only [step] at h
  split at h
  · next req op k hth => exact ⟨req, op, k, hth, (Option.some.inj h).symm⟩
  · cases h

theorem step_cancel {s s' : Pool Op Res σ Req ε α} {i : Nat}
    (h : sys.step s (.cancel i) = some s') :
    ∃ th, s.threads[i]? = some th ∧
      s' = { s with threads := s.threads.set i { th with live := false } } := by
  simp only [step] at h
  split at h
  · next th hth => exact ⟨th, hth, (Option.some.inj h).symm⟩
  · cases h

theorem step_env {s s' : Pool Op Res σ Req ε α} {e : Env} (h : sys.step s (.env e) = some s') :
    ∃ w, sys.env e s.state = some w ∧ s' = { s with state := w } := by
  simp only [step, Option.map_eq_some_iff] at h
  obtain ⟨w, hw, rfl⟩ := h
  exact ⟨w, hw, rfl⟩

/-- A thread that waits can be run. -/
theorem step_of_waits {s : Pool Op Res σ Req ε α} {i : Nat} {op : Op} (h : s.Waits i op) :
    ∃ s', sys.step s (.run i) = some s' := by
  obtain ⟨⟨req, code, live⟩, hth, hlive, hop⟩ := h
  cases code with
  | ret a => cases hop
  | raise e => cases hop
  | call op' k =>
    cases hlive
    exact ⟨_, by simp only [step, hth]; rfl⟩

theorem waits_unique {s : Pool Op Res σ Req ε α} {i : Nat} {op op' : Op} (h : s.Waits i op)
    (h' : s.Waits i op') : op = op' := by
  obtain ⟨th, hth, -, hop⟩ := h
  obtain ⟨th', hth', -, hop'⟩ := h'
  rw [hth] at hth'
  cases hth'
  rw [hop] at hop'
  exact Option.some.inj hop'

/-- A run of the executable semantics is a sequence of steps. -/
theorem steps_of_runIf {c : Pool Op Res σ Req ε α → Action Req Env → Bool} :
    ∀ (as : List (Action Req Env)) (s s' : Pool Op Res σ Req ε α),
      sys.runIf c s as = some s' → sys.Steps (fun s a => c s a = true) s s' := by
  intro as
  induction as with
  | nil =>
    intro s s' h
    rw [← Option.some.inj h]
    exact Relation.ReflTransGen.refl
  | cons a as ih =>
    intro s s' h
    simp only [runIf] at h
    split at h
    · next hc =>
      obtain ⟨v, hv, hrest⟩ := Option.bind_eq_some_iff.mp h
      exact Relation.ReflTransGen.head ⟨a, hc, hv⟩ (ih v s' hrest)
    · cases h

theorem steps_of_run {C : Pool Op Res σ Req ε α → Action Req Env → Prop} (hC : ∀ s a, C s a) :
    ∀ (as : List (Action Req Env)) (s s' : Pool Op Res σ Req ε α),
      sys.run s as = some s' → sys.Steps C s s' := by
  intro as
  induction as with
  | nil =>
    intro s s' h
    rw [← Option.some.inj h]
    exact Relation.ReflTransGen.refl
  | cons a as ih =>
    intro s s' h
    simp only [run, Option.bind_eq_some_iff] at h
    obtain ⟨v, hv, hrest⟩ := h
    exact Relation.ReflTransGen.head ⟨a, hC s a, hv⟩ (ih v s' hrest)

theorem run_append (as bs : List (Action Req Env)) (s : Pool Op Res σ Req ε α) :
    sys.run s (as ++ bs) = (sys.run s as).bind (fun s' => sys.run s' bs) := by
  induction as generalizing s with
  | nil => rfl
  | cons a as ih =>
    show (sys.step s a).bind (fun s' => sys.run s' (as ++ bs)) = _
    rw [run, Option.bind_assoc]
    congr 1
    funext s'
    exact ih s'

/-- What every step under `C` keeps, every run under `C` keeps. -/
theorem Steps.invariant {C : Pool Op Res σ Req ε α → Action Req Env → Prop}
    {J : Pool Op Res σ Req ε α → Prop}
    (hstep : ∀ s a s', J s → C s a → sys.step s a = some s' → J s')
    {s s' : Pool Op Res σ Req ε α} (h : sys.Steps C s s') (hs : J s) : J s' := by
  induction h with
  | refl => exact hs
  | tail _ hlast ih =>
    obtain ⟨a, hC, ha⟩ := hlast
    exact hstep _ a _ ih hC ha

/-- What the operations, the responses and the environment keep, every run keeps. -/
theorem Steps.state_invariant {C : Pool Op Res σ Req ε α → Action Req Env → Prop} {J : σ → Prop}
    (hexec : ∀ op w, J w → J (sys.exec op w).2) (hrespond : ∀ req out w, J w → J (sys.respond req out w))
    (henv : ∀ e w w', J w → sys.env e w = some w' → J w') {s s' : Pool Op Res σ Req ε α}
    (h : sys.Steps C s s') (hs : J s.state) : J s'.state := by
  have hsettle : ∀ req (p : Prog Op Res ε α) w, J w → J (sys.settle req p w) := by
    intro req p w hw
    unfold settle
    split
    · exact hrespond _ _ w hw
    · exact hw
  refine h.invariant (J := fun s => J s.state) ?_ hs
  intro s a s' hs _ hstep
  cases a with
  | spawn req =>
    rw [(step_spawn hstep).2]
    exact hsettle _ _ _ hs
  | run i =>
    obtain ⟨req, op, k, -, rfl⟩ := step_run hstep
    exact hsettle _ _ _ (hexec op _ hs)
  | cancel i =>
    obtain ⟨th, -, rfl⟩ := step_cancel hstep
    exact hs
  | env e =>
    obtain ⟨w, hw, rfl⟩ := step_env hstep
    exact henv e _ w hs hw

theorem Steps.mono {C D : Pool Op Res σ Req ε α → Action Req Env → Prop}
    (hCD : ∀ s a, C s a → D s a) {s s' : Pool Op Res σ Req ε α} (h : sys.Steps C s s') :
    sys.Steps D s s' := by
  refine Relation.ReflTransGen.mono ?_ _ _ h
  rintro v v' ⟨a, hC, ha⟩
  exact ⟨a, hCD v a hC, ha⟩

theorem Steps.snoc {C : Pool Op Res σ Req ε α → Action Req Env → Prop}
    {s s₁ s₂ : Pool Op Res σ Req ε α} {a : Action Req Env} (h : sys.Steps C s s₁) (hC : C s₁ a)
    (ha : sys.step s₁ a = some s₂) : sys.Steps C s s₂ :=
  Relation.ReflTransGen.tail h ⟨a, hC, ha⟩

theorem Completes.accepts {C : Pool Op Res σ Req ε α → Action Req Env → Prop}
    {s s' : Pool Op Res σ Req ε α} {req : Req} {out : Except ε α} (h : sys.Completes C s req out s') :
    sys.accepts s.state req = true := by
  obtain ⟨s₁, s₂, -, hspawn, -⟩ := h
  exact (step_spawn hspawn).1

theorem Completes.steps {C : Pool Op Res σ Req ε α → Action Req Env → Prop}
    {s s' : Pool Op Res σ Req ε α} {req : Req} {out : Except ε α} (h : sys.Completes C s req out s') :
    sys.Steps C s s' := by
  obtain ⟨s₁, s₂, hC, hspawn, hsteps, hC', hrun, -⟩ := h
  exact Relation.ReflTransGen.head ⟨_, hC, hspawn⟩ (hsteps.snoc hC' hrun)

/-- Every thread's code stays within what its request's program uses. -/
def Within (Q : Req → Op → Prop) (L : Req → Except ε α → Prop) (s : Pool Op Res σ Req ε α) : Prop :=
  ∀ th ∈ s.threads, th.code.Uses (Q th.req) (L th.req)

theorem Within.step {Q : Req → Op → Prop} {L : Req → Except ε α → Prop}
    (hprog : ∀ req, (sys.program req).Uses (Q req) (L req)) {s s' : Pool Op Res σ Req ε α}
    {a : Action Req Env} (hs : Within Q L s) (ha : sys.step s a = some s') : Within Q L s' := by
  cases a with
  | spawn req =>
    obtain ⟨-, rfl⟩ := step_spawn ha
    intro th hth
    rcases List.mem_append.mp hth with hold | hnew
    · exact hs th hold
    · rw [List.mem_singleton.mp hnew]
      exact hprog req
  | run i =>
    obtain ⟨req, op, k, hi, rfl⟩ := step_run ha
    intro th hth
    rcases List.mem_or_eq_of_mem_set hth with hold | rfl
    · exact hs th hold
    · exact (hs _ (List.mem_of_getElem? hi)).2 _
  | cancel i =>
    obtain ⟨th', hi, rfl⟩ := step_cancel ha
    intro th hth
    rcases List.mem_or_eq_of_mem_set hth with hold | rfl
    · exact hs th hold
    · exact hs th' (List.mem_of_getElem? hi)
  | env e =>
    obtain ⟨w, -, rfl⟩ := step_env ha
    exact hs

theorem Steps.within {C : Pool Op Res σ Req ε α → Action Req Env → Prop} {Q : Req → Op → Prop}
    {L : Req → Except ε α → Prop} (hprog : ∀ req, (sys.program req).Uses (Q req) (L req))
    {s s' : Pool Op Res σ Req ε α} (h : sys.Steps C s s') (hs : Within Q L s) : Within Q L s' :=
  h.invariant (fun _ _ _ hv _ ha => hv.step hprog ha) hs

/-- A request calls no operation that its program does not use. -/
theorem Within.waits {Q : Req → Op → Prop} {L : Req → Except ε α → Prop} {s : Pool Op Res σ Req ε α}
    (hs : Within Q L s) {i : Nat} {op : Op} (hw : s.Waits i op) :
    ∃ th, s.threads[i]? = some th ∧ Q th.req op := by
  obtain ⟨⟨req, code, live⟩, hth, -, hop⟩ := hw
  have huses := hs _ (List.mem_of_getElem? hth)
  cases code with
  | ret a => cases hop
  | raise e => cases hop
  | call op' k =>
    cases hop
    exact ⟨_, hth, huses.1⟩

/-- A request made alone and answered by its last step. -/
theorem completes_of_run {C : Pool Op Res σ Req ε α → Action Req Env → Prop} (hC : ∀ s a, C s a)
    {s s' : Pool Op Res σ Req ε α} {req : Req} {out : Except ε α} (as : List (Action Req Env))
    (h : sys.run s (.spawn req :: (as ++ [.run s.threads.length])) = some s')
    (hout : s'.threads[s.threads.length]?.map (fun th => (th.req, th.code.outcome)) = some (req, some out)) :
    sys.Completes C s req out s' := by
  simp only [run, Option.bind_eq_some_iff] at h
  obtain ⟨s₁, hspawn, hrest⟩ := h
  rw [run_append, Option.bind_eq_some_iff] at hrest
  obtain ⟨s₂, hmid, hlast⟩ := hrest
  simp only [run, Option.bind_eq_some_iff] at hlast
  obtain ⟨s₃, hrun, hend⟩ := hlast
  cases hend
  obtain ⟨th, hth, hpair⟩ := Option.map_eq_some_iff.mp hout
  simp only [Prod.mk.injEq] at hpair
  exact ⟨s₁, s₂, hC _ _, hspawn, steps_of_run hC as _ _ hmid, hC _ _, hrun, th, hth, hpair.1, hpair.2⟩

end System

/-- Thread `i` serves a request in `n` steps, with nothing in between. -/
def serially {Req Env : Type} (i n : Nat) (req : Req) : List (Action Req Env) :=
  .spawn req :: List.replicate n (.run i)

end Interleave
