import FastiKit.Interleave.Pool

/- Rely-guarantee reasoning for a pool of programs. A regime says, for each
   operation, when it may fire (`cond`), what the rest of the pool may do to the
   state while a thread waits to call it (`rely`), and what firing it must
   satisfy (`guar`). `Ready K p s` is the proof obligation of a program `p` whose
   wait began in `s`: whatever the rest does within the rely, every operation of
   `p` meets the guarantee and the outcome meets `K`. It is proved program by
   program, structurally (`after_bind`, `after_tryCatch`); `Sound.steps` then
   gives the obligations of every thread in every pool reached, and
   `Sound.watch_steps` and `Sound.completes` what another guarantee and another
   postcondition say of one thread. -/
namespace Interleave

variable {Op : Type} {Res : Op → Type} {σ Req ε α β Env : Type}

structure Regime (Op σ : Type) where
  cond : Op → σ → Prop
  rely : Op → σ → σ → Prop
  guar : Op → σ → σ → Prop

/-- The same regime with another guarantee. -/
def Regime.watch (g : Regime Op σ) (guar : Op → σ → σ → Prop) : Regime Op σ := { g with guar }

section Obligations
variable (g : Regime Op σ) (exec : (op : Op) → σ → Res op × σ)

/-- `op` has just taken the state from `s` to `s'` and the program goes on as
the given one: `K` if that is an outcome, else the guarantee of `op` and the
obligations of what follows. -/
def After (K : Except ε α → Op → σ → σ → Prop) : Prog Op Res ε α → Op → σ → σ → Prop
  | .ret a, op, s, s' => K (.ok a) op s s'
  | .raise e, op, s, s' => K (.error e) op s s'
  | .call op' k, op, s, s' => g.guar op s s' ∧ ∀ v, g.rely op' s' v → g.cond op' v →
      After K (k (exec op' v).1) op' v (exec op' v).2

/-- The obligations of a program that has waited since `s` to call its next
operation. -/
def Ready (K : Except ε α → Op → σ → σ → Prop) : Prog Op Res ε α → σ → Prop
  | .call op k, s => ∀ v, g.rely op s v → g.cond op v →
      After g exec K (k (exec op v).1) op v (exec op v).2
  | .ret _, _ => False
  | .raise _, _ => False

variable {g exec}

@[simp] theorem after_ret (K : Except ε α → Op → σ → σ → Prop) (a : α) (op : Op) (s s' : σ) :
    After g exec K (.ret a : Prog Op Res ε α) op s s' ↔ K (.ok a) op s s' := Iff.rfl

@[simp] theorem after_raise (K : Except ε α → Op → σ → σ → Prop) (e : ε) (op : Op) (s s' : σ) :
    After g exec K (.raise e : Prog Op Res ε α) op s s' ↔ K (.error e) op s s' := Iff.rfl

theorem after_call (K : Except ε α → Op → σ → σ → Prop) (op' : Op) (k : Res op' → Prog Op Res ε α)
    (op : Op) (s s' : σ) :
    After g exec K (.call op' k) op s s' ↔ g.guar op s s' ∧ Ready g exec K (.call op' k) s' := Iff.rfl

theorem After.mono {K K' : Except ε α → Op → σ → σ → Prop}
    (h : ∀ out op s s', K out op s s' → K' out op s s') :
    ∀ (p : Prog Op Res ε α) (op : Op) (s s' : σ), After g exec K p op s s' → After g exec K' p op s s' := by
  intro p
  induction p with
  | ret a => intro op s s' hp; exact h _ _ _ _ hp
  | raise e => intro op s s' hp; exact h _ _ _ _ hp
  | call op' k ih =>
    intro op s s' hp
    exact ⟨hp.1, fun v hr hc => ih _ _ _ _ (hp.2 v hr hc)⟩

/-- The obligations of `p` followed by `f` are those of `p`, with those of `f`
where `p` returns. -/
theorem after_bind (K : Except ε β → Op → σ → σ → Prop) (f : α → Prog Op Res ε β) :
    ∀ (p : Prog Op Res ε α) (op : Op) (s s' : σ),
      After g exec K (p >>= f) op s s' ↔
        After g exec (fun out op s s' => match out with
          | .ok a => After g exec K (f a) op s s'
          | .error e => K (.error e) op s s') p op s s' := by
  intro p
  induction p with
  | ret a => intro op s s'; rfl
  | raise e => intro op s s'; rfl
  | call op' k ih =>
    intro op s s'
    rw [Prog.call_bind, after_call, after_call]
    exact and_congr_right fun _ => forall_congr' fun v => forall_congr' fun _ => forall_congr' fun _ =>
      ih _ _ _ _

theorem after_tryCatch (K : Except ε α → Op → σ → σ → Prop) (h : ε → Prog Op Res ε α) :
    ∀ (p : Prog Op Res ε α) (op : Op) (s s' : σ),
      After g exec K (tryCatchThe ε p h) op s s' ↔
        After g exec (fun out op s s' => match out with
          | .ok a => K (.ok a) op s s'
          | .error e => After g exec K (h e) op s s') p op s s' := by
  intro p
  induction p with
  | ret a => intro op s s'; rfl
  | raise e => intro op s s'; rfl
  | call op' k ih =>
    intro op s s'
    rw [Prog.call_tryCatch, after_call, after_call]
    exact and_congr_right fun _ => forall_congr' fun v => forall_congr' fun _ => forall_congr' fun _ =>
      ih _ _ _ _

/-- A program that calls its first operation, followed by `f`. -/
theorem ready_bind (K : Except ε β → Op → σ → σ → Prop) (f : α → Prog Op Res ε β)
    (p : Prog Op Res ε α) (s : σ)
    (h : Ready g exec (fun out op s s' => match out with
          | .ok a => After g exec K (f a) op s s'
          | .error e => K (.error e) op s s') p s) : Ready g exec K (p >>= f) s := by
  cases p with
  | ret a => exact h.elim
  | raise e => exact h.elim
  | call op k =>
    intro v hr hc
    exact (after_bind K f _ _ _ _).mpr (h v hr hc)

theorem Ready.mono {K K' : Except ε α → Op → σ → σ → Prop}
    (h : ∀ out op s s', K out op s s' → K' out op s s') {p : Prog Op Res ε α} {s : σ}
    (hp : Ready g exec K p s) : Ready g exec K' p s := by
  cases p with
  | ret a => exact hp.elim
  | raise e => exact hp.elim
  | call op k => exact fun v hr hc => After.mono h _ _ _ _ (hp v hr hc)

/-- What a program meets under two regimes, the second with the stronger rely, it meets
together under the second. -/
theorem After.and {g g' : Regime Op σ} (hrely : ∀ op s v, g'.rely op s v → g.rely op s v)
    (hcond : ∀ op s, g'.cond op s → g.cond op s) {K K' : Except ε α → Op → σ → σ → Prop} :
    ∀ (p : Prog Op Res ε α) (op : Op) (s s' : σ), After g exec K p op s s' → After g' exec K' p op s s' →
      After (g'.watch (fun op s s' => g.guar op s s' ∧ g'.guar op s s')) exec
        (fun out op s s' => K out op s s' ∧ K' out op s s') p op s s' := by
  intro p
  induction p with
  | ret a => intro op s s' h h'; exact ⟨h, h'⟩
  | raise e => intro op s s' h h'; exact ⟨h, h'⟩
  | call op' k ih =>
    intro op s s' h h'
    refine ⟨⟨h.1, h'.1⟩, ?_⟩
    intro v hr hc
    exact ih _ _ _ _ (h.2 v (hrely op' s' v hr) (hcond op' v hc)) (h'.2 v hr hc)

theorem Ready.and {g g' : Regime Op σ} (hrely : ∀ op s v, g'.rely op s v → g.rely op s v)
    (hcond : ∀ op s, g'.cond op s → g.cond op s) {K K' : Except ε α → Op → σ → σ → Prop}
    {p : Prog Op Res ε α} {s : σ} (h : Ready g exec K p s) (h' : Ready g' exec K' p s) :
    Ready (g'.watch (fun op s s' => g.guar op s s' ∧ g'.guar op s s')) exec
      (fun out op s s' => K out op s s' ∧ K' out op s s') p s := by
  cases p with
  | ret a => exact h.elim
  | raise e => exact h.elim
  | call op k =>
    intro v hr hc
    exact After.and hrely hcond _ _ _ _ (h v (hrely op s v hr) (hcond op v hc)) (h' v hr hc)

/-- A program that is ready where its predecessor's last operation leaves it. -/
theorem after_of_ready {K : Except ε α → Op → σ → σ → Prop} {p : Prog Op Res ε α} {op : Op} {s s' : σ}
    (hg : g.guar op s s') (hp : Ready g exec K p s') : After g exec K p op s s' := by
  cases p with
  | ret a => exact hp.elim
  | raise e => exact hp.elim
  | call op' k => exact ⟨hg, hp⟩

/-- A program whose operations all satisfy `Q` and whose outcomes all satisfy
`L`, when each such operation meets the guarantee by itself and keeps `P`. -/
theorem after_of_uses {K : Except ε α → Op → σ → σ → Prop} {Q : Op → Prop} {L : Except ε α → Prop}
    {P : σ → Prop}
    (hP : ∀ op s v, Q op → P s → g.rely op s v → g.cond op v → P (exec op v).2)
    (hg : ∀ op s v, Q op → P s → g.rely op s v → g.cond op v → g.guar op v (exec op v).2)
    (hK : ∀ out op s v, Q op → L out → P s → g.rely op s v → g.cond op v → K out op v (exec op v).2) :
    ∀ (p : Prog Op Res ε α), p.Uses Q L → ∀ (op : Op) (s v : σ), Q op → P s → g.rely op s v →
      g.cond op v → After g exec K p op v (exec op v).2 := by
  intro p
  induction p with
  | ret a => intro hu op s v hq hs hr hc; exact hK _ _ _ _ hq hu hs hr hc
  | raise e => intro hu op s v hq hs hr hc; exact hK _ _ _ _ hq hu hs hr hc
  | call op' k ih =>
    intro hu op s v hq hs hr hc
    refine ⟨hg op s v hq hs hr hc, ?_⟩
    intro v' hr' hc'
    exact ih _ (hu.2 _) op' _ v' hu.1 (hP op s v hq hs hr hc) hr' hc'

theorem ready_of_uses {K : Except ε α → Op → σ → σ → Prop} {Q : Op → Prop} {L : Except ε α → Prop}
    {P : σ → Prop}
    (hP : ∀ op s v, Q op → P s → g.rely op s v → g.cond op v → P (exec op v).2)
    (hg : ∀ op s v, Q op → P s → g.rely op s v → g.cond op v → g.guar op v (exec op v).2)
    (hK : ∀ out op s v, Q op → L out → P s → g.rely op s v → g.cond op v → K out op v (exec op v).2)
    {p : Prog Op Res ε α} {s : σ} (hp : p.outcome = none) (hu : p.Uses Q L) (hs : P s) :
    Ready g exec K p s := by
  cases p with
  | ret a => cases hp
  | raise e => cases hp
  | call op k =>
    intro v hr hc
    exact after_of_uses hP hg hK _ (hu.2 _) op s v hu.1 hs hr hc

end Obligations

section Soundness
variable (sys : System Op Res σ Req ε α Env) (g : Regime Op σ)

/-- The postcondition of a request: the guarantee and `post`, once it has
responded. -/
def Finish (post : Except ε α → σ → Prop) (req : Req) : Except ε α → Op → σ → σ → Prop :=
  fun out op s s' => g.guar op s (sys.respond req out s') ∧ post out (sys.respond req out s')

/-- The premises under which every request may be verified on its own. `J` is
an invariant of the pool, `I` one of the state, `post` the postconditions. -/
structure Sound (C : Pool Op Res σ Req ε α → Action Req Env → Prop)
    (J : Pool Op Res σ Req ε α → Prop) (I : σ → Prop) (post : Req → Except ε α → σ → Prop) :
    Prop where
  refl : ∀ op w, I w → g.rely op w w
  pool : ∀ s a s', J s → C s a → sys.step s a = some s' → J s'
  spawn : ∀ s req, J s → I s.state → C s (.spawn req) → sys.accepts s.state req = true →
    Ready g sys.exec (Finish sys g (post req) req) (sys.program req) s.state
  cond : ∀ s i op, J s → I s.state → C s (.run i) → s.Waits i op → g.cond op s.state
  guar : ∀ op w w', I w → g.guar op w w' → I w'
  stable : ∀ s i op w', J s → I s.state → C s (.run i) → s.Waits i op → g.guar op s.state w' →
    ∀ j op', j ≠ i → s.Waits j op' → ∀ w, g.rely op' w s.state → g.rely op' w w'
  env : ∀ s e w', J s → I s.state → C s (.env e) → sys.env e s.state = some w' →
    I w' ∧ ∀ j op', s.Waits j op' → ∀ w, g.rely op' w s.state → g.rely op' w w'

/-- Thread `i`, while it still has operations to call, has waited within its
rely since a state in which it was ready. -/
def Watch (K : Req → Except ε α → Op → σ → σ → Prop) (s : Pool Op Res σ Req ε α) (i : Nat) : Prop :=
  ∀ th op, s.threads[i]? = some th → th.live = true → th.code.next = some op →
    ∃ w, g.rely op w s.state ∧ Ready g sys.exec (K th.req) th.code w

/-- Every thread meets its obligations. -/
def PoolOk (J : Pool Op Res σ Req ε α → Prop) (I : σ → Prop) (post : Req → Except ε α → σ → Prop)
    (s : Pool Op Res σ Req ε α) : Prop :=
  J s ∧ I s.state ∧ ∀ i, Watch sys g (fun req => Finish sys g (post req) req) s i

variable {sys g} {C : Pool Op Res σ Req ε α → Action Req Env → Prop}
  {J : Pool Op Res σ Req ε α → Prop} {I : σ → Prop} {post : Req → Except ε α → σ → Prop}

theorem after_settle {K : Except ε α → Op → σ → σ → Prop} {p : Prog Op Res ε α} {op : Op} {s s' : σ}
    (h : After g sys.exec K p op s s') :
    (∃ out, p.outcome = some out ∧ K out op s s') ∨
      (p.outcome = none ∧ g.guar op s s' ∧ Ready g sys.exec K p s') := by
  cases p with
  | ret a => exact .inl ⟨.ok a, rfl, h⟩
  | raise e => exact .inl ⟨.error e, rfl, h⟩
  | call op' k => exact .inr ⟨rfl, h⟩

theorem ready_next {K : Except ε α → Op → σ → σ → Prop} {p : Prog Op Res ε α} {s : σ}
    (h : Ready g sys.exec K p s) : p.outcome = none := by
  cases p with
  | ret a => exact h.elim
  | raise e => exact h.elim
  | call op' k => rfl

theorem settle_of_none {req : Req} {p : Prog Op Res ε α} {s : σ} (h : p.outcome = none) :
    sys.settle req p s = s := by
  simp only [System.settle, h]

theorem settle_of_some {req : Req} {p : Prog Op Res ε α} {s : σ} {out : Except ε α}
    (h : p.outcome = some out) : sys.settle req p s = sys.respond req out s := by
  simp only [System.settle, h]

/-- The thread that runs: its operation fires within the guarantee. -/
theorem Sound.own_step (hs : Sound sys g C J I post) {s : Pool Op Res σ Req ε α} {i : Nat}
    {req : Req} {op : Op} {k : Res op → Prog Op Res ε α} (h : PoolOk sys g J I post s)
    (hC : C s (.run i)) (hth : s.threads[i]? = some ⟨req, .call op k, true⟩) :
    g.guar op s.state (sys.settle req (k (sys.exec op s.state).1) (sys.exec op s.state).2) ∧
      ((k (sys.exec op s.state).1).outcome = none →
        Ready g sys.exec (Finish sys g (post req) req) (k (sys.exec op s.state).1)
          (sys.exec op s.state).2) ∧
      ∀ out, (k (sys.exec op s.state).1).outcome = some out →
        post req out (sys.respond req out (sys.exec op s.state).2) := by
  obtain ⟨hJ, hI, hw⟩ := h
  obtain ⟨w, hr, hready⟩ := hw i _ op hth rfl rfl
  have hcond := hs.cond s i op hJ hI hC ⟨_, hth, rfl, rfl⟩
  have hafter := hready s.state hr hcond
  rcases after_settle hafter with ⟨out, ho, hK⟩ | ⟨ho, hg, hrest⟩
  · refine ⟨?_, ?_, ?_⟩
    · rw [settle_of_some ho]; exact hK.1
    · intro hn; rw [ho] at hn; cases hn
    · intro out' ho'
      rw [ho] at ho'
      cases ho'
      exact hK.2
  · refine ⟨?_, fun _ => hrest, ?_⟩
    · rw [settle_of_none ho]; exact hg
    · intro out' ho'; rw [ho] at ho'; cases ho'

/-- A step of another thread, or of the environment, leaves a watched thread
waiting within its rely. -/
theorem Sound.watch_other (hs : Sound sys g C J I post) {G : Op → σ → σ → Prop}
    {K : Req → Except ε α → Op → σ → σ → Prop} {s s' : Pool Op Res σ Req ε α} {a : Action Req Env}
    {i : Nat} (h : PoolOk sys g J I post s) (hC : C s a) (ha : sys.step s a = some s')
    (hi : i < s.threads.length) (hne : a ≠ .run i) (hw : Watch sys (g.watch G) K s i) :
    Watch sys (g.watch G) K s' i := by
  intro th op hth hlive hop
  cases a with
  | spawn req =>
    obtain ⟨hadm, rfl⟩ := System.step_spawn ha
    have hready := hs.spawn s req h.1 h.2.1 hC hadm
    rw [List.getElem?_append_left hi] at hth
    simp only [settle_of_none (ready_next hready)]
    exact hw th op hth hlive hop
  | run j =>
    obtain ⟨req, op', k, hj, rfl⟩ := System.step_run ha
    have hij : j ≠ i := fun e => hne (by rw [e])
    rw [List.getElem?_set_ne hij] at hth
    obtain ⟨w, hr, hready⟩ := hw th op hth hlive hop
    have hown := hs.own_step h hC hj
    exact ⟨w, hs.stable s j op' _ h.1 h.2.1 hC ⟨_, hj, rfl, rfl⟩ hown.1 i op
      (fun e => hij e.symm) ⟨th, hth, hlive, hop⟩ w hr, hready⟩
  | cancel j =>
    obtain ⟨th', hj, rfl⟩ := System.step_cancel ha
    by_cases hij : j = i
    · subst hij
      rw [List.getElem?_set_self hi] at hth
      cases hth
      cases hlive
    · rw [List.getElem?_set_ne hij] at hth
      exact hw th op hth hlive hop
  | env e =>
    obtain ⟨w', he, rfl⟩ := System.step_env ha
    obtain ⟨w, hr, hready⟩ := hw th op hth hlive hop
    have henv := hs.env s e w' h.1 h.2.1 hC he
    exact ⟨w, henv.2 i op ⟨th, hth, hlive, hop⟩ w hr, hready⟩

theorem Sound.step (hs : Sound sys g C J I post) {s s' : Pool Op Res σ Req ε α} {a : Action Req Env}
    (h : PoolOk sys g J I post s) (hC : C s a) (ha : sys.step s a = some s') :
    PoolOk sys g J I post s' := by
  have hlen : ∀ i, s.threads.length ≤ i → (∀ req, a ≠ .spawn req) → s'.threads[i]? = none := by
    intro i hi hsp
    cases a with
    | spawn req => exact absurd rfl (hsp req)
    | run j => obtain ⟨req, op, k, hj, rfl⟩ := System.step_run ha; simpa using hi
    | cancel j => obtain ⟨th, hj, rfl⟩ := System.step_cancel ha; simpa using hi
    | env e => obtain ⟨w, he, rfl⟩ := System.step_env ha; simpa using hi
  have hold : ∀ i, i < s.threads.length → a ≠ .run i →
      Watch sys g (fun req => Finish sys g (post req) req) s' i :=
    fun i hi hne => hs.watch_other (G := g.guar) h hC ha hi hne (h.2.2 i)
  refine ⟨hs.pool s a s' h.1 hC ha, ?_, ?_⟩
  · cases a with
    | spawn req =>
      obtain ⟨hadm, rfl⟩ := System.step_spawn ha
      simp only [settle_of_none (ready_next (hs.spawn s req h.1 h.2.1 hC hadm))]
      exact h.2.1
    | run i =>
      obtain ⟨req, op, k, hi, rfl⟩ := System.step_run ha
      exact hs.guar op _ _ h.2.1 (hs.own_step h hC hi).1
    | cancel i => obtain ⟨th, hi, rfl⟩ := System.step_cancel ha; exact h.2.1
    | env e =>
      obtain ⟨w', he, rfl⟩ := System.step_env ha
      exact (hs.env s e w' h.1 h.2.1 hC he).1
  · intro i
    rcases Nat.lt_or_ge i s.threads.length with hi | hi
    · by_cases hrun : a = .run i
      · subst hrun
        intro th op hth hlive hop
        obtain ⟨req, op', k, hj, rfl⟩ := System.step_run ha
        have hown := hs.own_step h hC hj
        rw [List.getElem?_set_self hi] at hth
        cases hth
        have hnone : (k (sys.exec op' s.state).1).outcome = none := by
          cases hk : k (sys.exec op' s.state).1 with
          | ret a => rw [hk] at hop; cases hop
          | raise e => rw [hk] at hop; cases hop
          | call _ _ => rfl
        refine ⟨(sys.exec op' s.state).2, ?_, hown.2.1 hnone⟩
        have hI := hs.guar op' _ _ h.2.1 hown.1
        rw [settle_of_none hnone] at hI
        simp only [settle_of_none hnone]
        exact hs.refl op _ hI
      · exact hold i hi hrun
    · by_cases hspawn : ∃ req, a = .spawn req
      · obtain ⟨req, rfl⟩ := hspawn
        intro th op hth hlive hop
        obtain ⟨hadm, rfl⟩ := System.step_spawn ha
        have hready := hs.spawn s req h.1 h.2.1 hC hadm
        rw [List.getElem?_append_right hi] at hth
        have hth' : th = ⟨req, sys.program req, true⟩ := by
          cases hd : i - s.threads.length with
          | zero => rw [hd] at hth; exact (Option.some.inj hth).symm
          | succ n => rw [hd] at hth; cases hth
        subst hth'
        simp only [settle_of_none (ready_next hready)]
        exact ⟨s.state, hs.refl op _ h.2.1, hready⟩
      · intro th op hth
        rw [hlen i hi (fun req e => hspawn ⟨req, e⟩)] at hth
        cases hth

/-- Every pool reached under `C` meets its obligations. -/
theorem Sound.steps (hs : Sound sys g C J I post) {s s' : Pool Op Res σ Req ε α}
    (h : sys.Steps C s s') (hok : PoolOk sys g J I post s) : PoolOk sys g J I post s' :=
  h.invariant (fun _ _ _ hv hC ha => hs.step hv hC ha) hok

theorem PoolOk.start {w : σ} (hJ : J (System.start w)) (hI : I w) :
    PoolOk sys g J I post (System.start w) := by
  refine ⟨hJ, hI, ?_⟩
  intro i th op hth
  cases hth

/-- A thread that finishes satisfies its postcondition. -/
theorem Sound.finish (hs : Sound sys g C J I post) {s s' : Pool Op Res σ Req ε α} {i : Nat}
    {req : Req} {out : Except ε α} (hok : PoolOk sys g J I post s) (hC : C s (.run i))
    (ha : sys.step s (.run i) = some s') (hf : s'.Finished i req out) : post req out s'.state := by
  obtain ⟨req', op, k, hi, rfl⟩ := System.step_run ha
  obtain ⟨th, hth, rfl, hout⟩ := hf
  have hlt : i < s.threads.length := (List.getElem?_eq_some_iff.mp hi).1
  rw [List.getElem?_set_self hlt] at hth
  cases hth
  have hown := hs.own_step hok hC hi
  simp only [settle_of_some hout]
  exact hown.2.2 out hout

/-- The state moves within the guarantee of the operation that fires. -/
theorem Sound.fires (hs : Sound sys g C J I post) {s s' : Pool Op Res σ Req ε α} {i : Nat}
    {op : Op} (hok : PoolOk sys g J I post s) (hC : C s (.run i))
    (ha : sys.step s (.run i) = some s') (hw : s.Waits i op) : g.guar op s.state s'.state := by
  obtain ⟨req', op', k, hi, rfl⟩ := System.step_run ha
  obtain ⟨th, hth, _, hop⟩ := hw
  rw [hi] at hth
  cases hth
  cases hop
  exact (hs.own_step hok hC hi).1

theorem finished_unique {s : Pool Op Res σ Req ε α} {i : Nat} {req req' : Req}
    {out out' : Except ε α} (h : s.Finished i req out) (h' : s.Finished i req' out') :
    req = req' ∧ out = out' := by
  obtain ⟨th, hth, rfl, hout⟩ := h
  obtain ⟨th', hth', rfl, hout'⟩ := h'
  rw [hth] at hth'
  cases hth'
  rw [hout] at hout'
  exact ⟨rfl, Option.some.inj hout'⟩

theorem step_length {s s' : Pool Op Res σ Req ε α} {a : Action Req Env}
    (ha : sys.step s a = some s') : s.threads.length ≤ s'.threads.length := by
  cases a with
  | spawn req => obtain ⟨_, rfl⟩ := System.step_spawn ha; simp
  | run j => obtain ⟨_, _, _, _, rfl⟩ := System.step_run ha; simp
  | cancel j => obtain ⟨_, _, rfl⟩ := System.step_cancel ha; simp
  | env e => obtain ⟨_, _, rfl⟩ := System.step_env ha; simp

/-- A thread was there before with its request, or its request is made now. -/
theorem step_request {s s' : Pool Op Res σ Req ε α} {a : Action Req Env} (ha : sys.step s a = some s')
    {i : Nat} {th : Thread Op Res ε α Req} (hth : s'.threads[i]? = some th) :
    (∃ th₀, s.threads[i]? = some th₀ ∧ th₀.req = th.req) ∨ i = s.threads.length ∧ a = .spawn th.req := by
  cases a with
  | spawn req =>
    obtain ⟨-, rfl⟩ := System.step_spawn ha
    rw [List.getElem?_append] at hth
    split at hth
    · exact .inl ⟨th, hth, rfl⟩
    · have hlt := (List.getElem?_eq_some_iff.mp hth).1
      have hi : i = s.threads.length := by
        simp only [List.length_singleton] at hlt
        omega
      subst hi
      rw [Nat.sub_self] at hth
      cases hth
      exact .inr ⟨rfl, rfl⟩
  | run j =>
    obtain ⟨req, op, k, hj, rfl⟩ := System.step_run ha
    by_cases hij : j = i
    · subst hij
      rw [List.getElem?_set_self (List.getElem?_eq_some_iff.mp hj).1] at hth
      cases hth
      exact .inl ⟨_, hj, rfl⟩
    · rw [List.getElem?_set_ne hij] at hth
      exact .inl ⟨th, hth, rfl⟩
  | cancel j =>
    obtain ⟨th', hj, rfl⟩ := System.step_cancel ha
    by_cases hij : j = i
    · subst hij
      rw [List.getElem?_set_self (List.getElem?_eq_some_iff.mp hj).1] at hth
      cases hth
      exact .inl ⟨_, hj, rfl⟩
    · rw [List.getElem?_set_ne hij] at hth
      exact .inl ⟨th, hth, rfl⟩
  | env e =>
    obtain ⟨w, -, rfl⟩ := System.step_env ha
    exact .inl ⟨th, hth, rfl⟩

/-! One thread, watched for more than the regime asks of every thread. -/

section Watched
variable {G : Op → σ → σ → Prop} {K : Req → Except ε α → Op → σ → σ → Prop}

/-- The thread's own step: within `G` and ready again, or finished within `K`. -/
theorem Sound.watch_own (hs : Sound sys g C J I post) {s s' : Pool Op Res σ Req ε α} {i : Nat}
    (h : PoolOk sys g J I post s) (hC : C s (.run i)) (ha : sys.step s (.run i) = some s')
    (hw : Watch sys (g.watch G) K s i) :
    Watch sys (g.watch G) K s' i ∧ ∃ op, s.Waits i op ∧
      (G op s.state s'.state ∧ (∀ req out, ¬ s'.Finished i req out) ∨
        ∃ req out, s'.Finished i req out ∧ K req out op s.state (sys.exec op s.state).2 ∧
          s'.state = sys.respond req out (sys.exec op s.state).2) := by
  have hI' := (hs.step h hC ha).2.1
  obtain ⟨req, op, k, hi, rfl⟩ := System.step_run ha
  have hlt : i < s.threads.length := (List.getElem?_eq_some_iff.mp hi).1
  obtain ⟨w, hr, hready⟩ := hw _ op hi rfl rfl
  have hcond := hs.cond s i op h.1 h.2.1 hC ⟨_, hi, rfl, rfl⟩
  have hafter := hready s.state hr hcond
  refine ⟨?_, op, ⟨_, hi, rfl, rfl⟩, ?_⟩
  · intro th op' hth hlive hop'
    rw [List.getElem?_set_self hlt] at hth
    cases hth
    rcases after_settle hafter with ⟨out, ho, _⟩ | ⟨ho, _, hrest⟩
    · cases hk : k (sys.exec op s.state).1 with
      | ret a => rw [hk] at hop'; cases hop'
      | raise e => rw [hk] at hop'; cases hop'
      | call _ _ => rw [hk] at ho; cases ho
    · simp only [settle_of_none ho] at hI' ⊢
      exact ⟨_, hs.refl op' _ hI', hrest⟩
  · rcases after_settle hafter with ⟨out, ho, hK⟩ | ⟨ho, hG, _⟩
    · right
      exact ⟨req, out, ⟨_, List.getElem?_set_self hlt, rfl, ho⟩, hK, settle_of_some ho⟩
    · left
      refine ⟨?_, ?_⟩
      · rw [settle_of_none ho]; exact hG
      · rintro req' out ⟨th, hth, -, hout⟩
        rw [List.getElem?_set_self hlt] at hth
        cases hth
        rw [ho] at hout
        cases hout

/-- A watched thread stays watched. -/
theorem Sound.watch_step (hs : Sound sys g C J I post) {s s' : Pool Op Res σ Req ε α}
    {a : Action Req Env} {i : Nat} (hok : PoolOk sys g J I post s) (hC : C s a)
    (ha : sys.step s a = some s') (hi : i < s.threads.length) (hw : Watch sys (g.watch G) K s i) :
    Watch sys (g.watch G) K s' i := by
  by_cases hrun : a = .run i
  · subst hrun
    exact (hs.watch_own hok hC ha hw).1
  · exact hs.watch_other hok hC ha hi hrun hw

theorem Sound.watch_steps (hs : Sound sys g C J I post) {s s' : Pool Op Res σ Req ε α} {i : Nat}
    (hok : PoolOk sys g J I post s) (hsteps : sys.Steps C s s') (hi : i < s.threads.length)
    (hw : Watch sys (g.watch G) K s i) : Watch sys (g.watch G) K s' i := by
  have key : PoolOk sys g J I post s' ∧ i < s'.threads.length ∧ Watch sys (g.watch G) K s' i := by
    refine hsteps.invariant (J := fun v => PoolOk sys g J I post v ∧ i < v.threads.length ∧
      Watch sys (g.watch G) K v i) ?_ ⟨hok, hi, hw⟩
    intro v a v' hv hC ha
    exact ⟨hs.step hv.1 hC ha, Nat.lt_of_lt_of_le hv.2.1 (step_length ha),
      hs.watch_step hv.1 hC ha hv.2.1 hv.2.2⟩
  exact key.2.2

/-- A new thread is watched from its first operation on. -/
theorem watch_spawn {s s' : Pool Op Res σ Req ε α} {req : Req}
    (hrefl : ∀ op, g.rely op s.state s.state) (ha : sys.step s (.spawn req) = some s')
    (hready : Ready (g.watch G) sys.exec (K req) (sys.program req) s.state) :
    s.threads.length < s'.threads.length ∧ Watch sys (g.watch G) K s' s.threads.length := by
  obtain ⟨-, rfl⟩ := System.step_spawn ha
  refine ⟨by simp, ?_⟩
  intro th op hth _ hop
  rw [List.getElem?_concat_length] at hth
  cases hth
  simp only [settle_of_none (ready_next hready)]
  exact ⟨s.state, hrefl op, hready⟩

/-- A request that was ready for `K` when it was made is answered within `K`. -/
theorem Sound.completes (hs : Sound sys g C J I post) {s s' : Pool Op Res σ Req ε α} {req : Req}
    {out : Except ε α} (hok : PoolOk sys g J I post s) (hc : sys.Completes C s req out s')
    (hready : Ready (g.watch G) sys.exec (K req) (sys.program req) s.state) :
    ∃ v op, sys.Steps C s v ∧ sys.Fires v s.threads.length op (sys.exec op v.state).1 ∧
      K req out op v.state (sys.exec op v.state).2 ∧
      s'.state = sys.respond req out (sys.exec op v.state).2 := by
  obtain ⟨s₁, v, hC, hspawn, hsteps, hC', hrun, hf⟩ := hc
  obtain ⟨hlt, hw⟩ := watch_spawn (fun op => hs.refl op _ hok.2.1) hspawn hready
  have hok₁ := hs.step hok hC hspawn
  have hwv := hs.watch_steps hok₁ hsteps hlt hw
  obtain ⟨-, op, hwait, ⟨-, hno⟩ | ⟨req', out', hf', hK, hstate⟩⟩ :=
    hs.watch_own (hs.steps hsteps hok₁) hC' hrun hwv
  · exact absurd hf (hno req out)
  · obtain ⟨rfl, rfl⟩ := finished_unique hf hf'
    exact ⟨v, op, Relation.ReflTransGen.head ⟨_, hC, hspawn⟩ hsteps, ⟨hwait, rfl⟩, hK, hstate⟩

end Watched

end Soundness

end Interleave
