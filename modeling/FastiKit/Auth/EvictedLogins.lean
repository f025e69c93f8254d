import FastiKit.Auth.PasswordChange

/- What a password reset does to logins under the old password.

   A login checks the password against a row it reads, and inserts the session in a
   transaction of its own that does not look at the hash again. A reset stores the new
   hash and revokes the sessions that its UPDATE sees. So a login that the reset
   overtakes gets a session under a password that is no longer the user's
   (`login_overtaken_by_reset`), and one that commits while the reset is between that
   UPDATE and its COMMIT gets one that the reset does not touch
   (`login_missed_by_reset`). While every session is opened under the hash that is
   still stored, and every reset saw the sessions there are when it commits, a reset
   evicts everyone who logged in with the hash it replaces (`reset_evicts`): every
   hash has a salt of its own, so a replaced hash is never stored again. -/
namespace FastiKit

open Interleave Relational

/-- Salts: drawn by `gensalt`, spent by the transaction that stores the hash. -/
def salts : Keys Op Op.Res World where
  counter := World.uuids
  draws
    | .gensalt, salt => some salt
    | _, _ => none
  spends
    | .register _ _ _ passwordHash _ _ => some passwordHash.salt
    | .updateUser _ fields => fields.passwordHash.map PasswordHash.salt
    | .resetPassword _ passwordHash _ _ => some passwordHash.salt
    | _ => none

theorem salts_lawful (cfg : Config) : salts.Lawful (service cfg) := by
  apply drawn_lawful rfl
  intro op w salt h
  cases op <;> cases h
  exact ⟨rfl, rfl⟩

theorem Quiet.spends_no_salt {op : Op} (h : Quiet op) : salts.spends op = none := by
  cases op <;> first | rfl | cases h

/-- A request stores only hashes under salts it drew. -/
theorem serve_keeps_salts (cfg : Config) (req : Request) : salts.Keeps (serve cfg req) ∅ := by
  have hrest : (∀ op, Calls req op → salts.spends op = none) → salts.Keeps (serve cfg req) ∅ :=
    fun h => Keys.keeps_of_uses ((serve_calls cfg req).mono h (fun _ h => h))
  cases req with
  | createUser data =>
    refine ⟨fun _ h => (by cases h), fun userId => ?_⟩
    refine ⟨fun _ h => (by cases h), fun now => ?_⟩
    refine ⟨fun _ h => (by cases h), fun jti => ?_⟩
    refine ⟨fun _ h => (by cases h), fun salt => ⟨?_, ?_⟩⟩
    · intro key hkey
      cases hkey
      exact .inr rfl
    · intro r
      cases r <;> trivial
  | updateUser header data =>
    rw [serve]
    apply Keys.keeps_bind ((tokenRequired_uses .access header).mono (fun _ hq => hq.spends_no_salt) (fun _ h => h))
    intro payload _
    rw [UserService.update]
    rcases hpassword : data.password with _ | _ | password
    · refine ⟨fun _ h => (by cases h), ?_⟩
      intro r
      rcases r with e | _ | user <;> trivial
    · refine ⟨fun _ h => (by cases h), ?_⟩
      intro r
      rcases r with e | _ | user <;> trivial
    · refine ⟨fun _ h => (by cases h), fun salt => ⟨?_, ?_⟩⟩
      · intro key hkey
        cases hkey
        exact .inr rfl
      · intro r
        rcases r with e | _ | user <;> trivial
  | resetPassword token newPassword =>
    rw [serve, AuthService.resetPassword, bind_assoc]
    apply Keys.keeps_bind ((decode_uses token .passwordReset _ _ _).mono (fun _ hq => hq.spends_no_salt)
      (fun _ h => h))
    intro payload _
    refine ⟨fun _ h => (by cases h), ?_⟩
    intro user
    cases user with
    | none => trivial
    | some user =>
      show salts.Keeps (Prog.bind (ite _ _ _) _) _
      split
      · trivial
      · show salts.Keeps (Prog.bind (ite _ _ _) _) _
        split
        · trivial
        · refine ⟨fun _ h => (by cases h), fun salt => ⟨?_, ?_⟩⟩
          · intro key hkey
            cases hkey
          · intro snapshot
            refine ⟨?_, ?_⟩
            · intro key hkey
              cases hkey
              exact .inl ⟨.inr rfl, (by intro hsnapshot; cases hsnapshot)⟩
            · intro r
              rcases r with e | user
              · obtain ⟨e', he'⟩ := orInvalidToken_raise "Reset link already used" e
                show salts.Keeps (Prog.bind (AuthService.orInvalidToken _ (.raise e)) _) _
                rw [he']
                trivial
              · trivial
  | _ =>
    apply hrest
    intro op hop
    cases op <;> first | rfl | cases hop

/-- A session is opened while the hash its login checked is still the stored one, and a
reset commits while every unrevoked session of its user is one that its UPDATE of
`refresh_sessions` saw. -/
def uninterrupted (cfg : Config) (s : Service) : Action Request Event → Bool
  | .run i =>
    match s.pending i with
    | some (.createSession user _) =>
      (s.state.db.users.get user.id).all (fun u => u.passwordHash = user.passwordHash)
    | some (.resetPassword userId passwordHash token snapshot) =>
      !(execOp cfg (.resetPassword userId passwordHash token snapshot) s.state).1.isOk ||
        s.state.db.refreshSessions.rows.all (fun r => r.userId ≠ userId || snapshot.covers r)
    | _ => true
  | _ => true

/-- The step from `s` to `s'` commits a reset of the user's password, in place of the
hash `replaced`. -/
def Replaces (cfg : Config) (c : Service → Action Request Event → Bool) (userId : Uuid)
    (replaced : PasswordHash) (s s' : Service) : Prop :=
  ∃ i passwordHash token snapshot user u,
    (service cfg).Fires s i (.resetPassword userId passwordHash token snapshot) (.ok user) ∧
    s.state.db.users.get userId = some u ∧ u.passwordHash = replaced ∧ c s (.run i) = true ∧
    (service cfg).step s (.run i) = some s'

/-! Salts of stored hashes. -/

/-- What sets a hash spends its salt. -/
theorem Op.spends_salt {op : Op} {userId : Uuid} {fields : UserFields} (hsets : op.sets = some (userId, fields))
    {passwordHash : PasswordHash} (h : fields.passwordHash = some passwordHash) :
    salts.spends op = some passwordHash.salt := by
  cases op <;> cases hsets
  case updateUser => exact congrArg (Option.map PasswordHash.salt) h
  case resetPassword => exact congrArg (Option.map PasswordHash.salt) h
  all_goals cases h

/-- Every stored hash's salt is spent. -/
def SaltsSpent (s : Service) : Prop :=
  ∃ gone, salts.Owned gone s ∧ ∀ userId u, s.state.db.users.get userId = some u → u.passwordHash.salt ∈ gone

theorem saltsSpent_step {cfg : Config} {s s' : Service} {a : Action Request Event} (hs : Served.Pool cfg s)
    (ha : (service cfg).step s a = some s') (h : SaltsSpent s) : SaltsSpent s' := by
  obtain ⟨gone, howned, hstored⟩ := h
  refine ⟨_, howned.step (salts_lawful cfg) (serve_keeps_salts cfg) ha, ?_⟩
  intro userId u' hu'
  rcases step_world hs ha with ⟨-, -, hstate⟩ | ⟨i, op, rfl, hw, hg⟩ | ⟨e, rfl, he⟩
  · rw [hstate] at hu'
    exact .inl (hstored userId u' hu')
  · obtain ⟨r, heff, -⟩ := hg.effect
    rcases heff.user_from hu' with ⟨u, hu, rfl | ⟨fields, hsets, rfl⟩⟩ | ⟨_, _, _, passwordHash, _, _, rfl, rfl⟩
    · exact .inl (hstored userId _ hu)
    · rw [UserFields.apply_passwordHash]
      cases hhash : fields.passwordHash with
      | none => exact .inl (hstored userId u hu)
      | some passwordHash => exact .inr ⟨op, hw, Op.spends_salt hsets hhash⟩
    · exact .inr ⟨_, hw, rfl⟩
  · rw [(World.event_frame he).1] at hu'
    exact .inl (hstored userId u' hu')

/-! One step. -/

/-- The user's hash is another one, and whoever logged in with this one is out. -/
structure Evicted (userId : Uuid) (replaced : PasswordHash) (w : World) : Prop where
  other : ∃ u, w.db.users.get userId = some u ∧ u.passwordHash ≠ replaced
  revoked : ∀ sid r, w.db.refreshSessions.get sid = some r → OpenedWith w sid userId replaced →
    r.revokedAt.isSome = true

/-- Where the record of a login comes from: it was there, or its session is opened by
this operation, under the next id. -/
theorem OpenedWith.from {cfg : Config} {op : Op} {w w' : World} (hg : Guarantee cfg op w w') {sid userId : Uuid}
    {passwordHash : PasswordHash} (h : OpenedWith w' sid userId passwordHash) :
    OpenedWith w sid userId passwordHash ∨
      sid = w.uuids ∧ ∃ user expiresAt, op = .createSession user expiresAt ∧ user.id = userId ∧
        user.passwordHash = passwordHash := by
  obtain ⟨email, password, user, session, hmem, hid, howner, hhash⟩ := h
  obtain ⟨r, heff, -, -, ⟨hres, -⟩ | ⟨req, out, hres, ha⟩⟩ := hg.effect
  · rw [hres] at hmem
    exact .inl ⟨email, password, user, session, hmem, hid, howner, hhash⟩
  · rw [hres, List.mem_cons] at hmem
    rcases hmem with heq | hold
    · right
      cases heq
      cases ha with
      | @login _ _ _ _ expiresAt =>
        obtain ⟨hnew, -⟩ := heff.of_createSession
        exact ⟨by rw [← hid, hnew]; rfl, user, expiresAt, rfl, howner, hhash⟩
      | rest _ hout => cases (hout _ rfl).1
    · exact .inl ⟨email, password, user, session, hold, hid, howner, hhash⟩

theorem OpenedWith.given {w : World} (hs : Sane w) {sid userId : Uuid} {passwordHash : PasswordHash}
    (h : OpenedWith w sid userId passwordHash) :
    sid < w.uuids ∧ ∀ r, w.db.refreshSessions.get sid = some r → r.userId = userId := by
  obtain ⟨email, password, user, session, hmem, rfl, rfl, -⟩ := h
  obtain ⟨hid, howner, hrow⟩ := hs.responses _ user session hmem
  exact ⟨hid, fun r hr => (hrow r hr).userId.trans howner⟩

theorem evicted_step {cfg : Config} {op : Op} {w w' : World} (hs : Sane w) (hg : Guarantee cfg op w w')
    {userId : Uuid} {replaced : PasswordHash} (hsalt : salts.spends op ≠ some replaced.salt)
    (hopens : ∀ user expiresAt u, op = .createSession user expiresAt → w.db.users.get user.id = some u →
      u.passwordHash = user.passwordHash) (h : Evicted userId replaced w) : Evicted userId replaced w' := by
  obtain ⟨r, heff, -⟩ := hg.effect
  obtain ⟨u, hu, hne⟩ := h.other
  refine ⟨?_, ?_⟩
  · rcases heff.user hu with hsame | ⟨fields, hsets, hset⟩
    · exact ⟨u, hsame, hne⟩
    · refine ⟨_, hset, ?_⟩
      rw [UserFields.apply_passwordHash]
      cases hhash : fields.passwordHash with
      | none => exact hne
      | some passwordHash =>
        intro heq
        have hspends := Op.spends_salt hsets hhash
        rw [Option.getD_some] at heq
        rw [heq] at hspends
        exact hsalt hspends
  · intro sid r' hr' hopened
    rcases hopened.from hg with hold | ⟨-, user, expiresAt, rfl, rfl, rfl⟩
    · obtain ⟨r₀, hr₀, hp⟩ := hg.evolves.db.sessions sid r' (hold.given hs).1 hr'
      have hrevoked := h.revoked sid r₀ hr₀ hold
      rw [hp.revokedAt hrevoked]
      exact hrevoked
    · -- the login opens its session with a hash that is not stored
      exact absurd (hopens user expiresAt u rfl hu) hne

theorem uninterrupted_login {cfg : Config} {s : Service} {i : Nat} {op : Op} (hw : s.Waits i op)
    (h : uninterrupted cfg s (.run i) = true) {user u : User} {expiresAt : Time}
    (hop : op = .createSession user expiresAt) (hu : s.state.db.users.get user.id = some u) :
    u.passwordHash = user.passwordHash := by
  subst hop
  simp only [uninterrupted, Pool.pending_of_waits hw] at h
  simpa [hu] using h

theorem uninterrupted_reset {cfg : Config} {s : Service} {i : Nat} {userId : Uuid} {passwordHash : PasswordHash}
    {token : TokenPayload} {snapshot : Snapshot} {user : User}
    (hf : (service cfg).Fires s i (.resetPassword userId passwordHash token snapshot) (.ok user))
    (h : uninterrupted cfg s (.run i) = true) {sid : Uuid} {r : RefreshSession}
    (hr : s.state.db.refreshSessions.get sid = some r) (howner : r.userId = userId) :
    snapshot.covers r = true := by
  have hanswer : (execOp cfg (.resetPassword userId passwordHash token snapshot) s.state).1 = .ok user := hf.2
  simp only [uninterrupted, Pool.pending_of_waits hf.1, hanswer, Bool.or_eq_true] at h
  rcases h with herror | hall
  · cases herror
  · simpa [howner] using List.all_eq_true.mp hall r (Table.mem_of_get hr)

/-! Runs. -/

section Runs
variable {cfg : Config} {c : Service → Action Request Event → Bool} {now : Time} {s s' t : Service}

theorem saltsSpent_steps (h : StepsIf cfg c (System.start (World.init now)) s) : SaltsSpent s := by
  have key : Served.Pool cfg s ∧ SaltsSpent s := by
    refine h.invariant (J := fun v => Served.Pool cfg v ∧ SaltsSpent v) ?_
      ⟨served_start now, ∅, Keys.owned_start _, ?_⟩
    · intro v a v' hv _ ha
      exact ⟨(service_sound cfg (fun _ _ => True)).step hv.1 trivial ha, saltsSpent_step hv.1 ha hv.2⟩
    · intro userId u hu
      cases hu
  exact key.2

/-- A reset that commits leaves the replaced hash behind, and its salt is spent. -/
theorem Replaces.evicted {userId : Uuid} {replaced : PasswordHash}
    (hs : StepsIf cfg (uninterrupted cfg) (System.start (World.init now)) s)
    (h : Replaces cfg (uninterrupted cfg) userId replaced s s') :
    StepsIf cfg (uninterrupted cfg) (System.start (World.init now)) s' ∧ salts.Owned {replaced.salt} s' ∧
      Evicted userId replaced s'.state := by
  obtain ⟨i, passwordHash, token, snapshot, user, u, hf, hu, rfl, hC, hstep⟩ := h
  obtain ⟨gone, howned, hstored⟩ := saltsSpent_steps hs
  have hserved := served_steps hs (served_start now)
  have hserved' := served_steps (hs.snoc hC hstep) (served_start now)
  have hg := run_guarantee hserved hf.1 hstep
  have heff := execOp_effect cfg (.resetPassword userId passwordHash token snapshot) s.state
  rw [← hg.db] at heff
  have hanswer : (execOp cfg (.resetPassword userId passwordHash token snapshot) s.state).1 = .ok user := hf.2
  rw [hanswer] at heff
  obtain ⟨revokedTokens, -, hdb⟩ := heff.of_resetPassword
  have hspent : salts.Owned {u.passwordHash.salt} s := by
    refine howned.mono ?_
    intro salt hsalt
    rw [Set.mem_singleton_iff.mp hsalt]
    exact hstored userId u hu
  refine ⟨hs.snoc hC hstep, ?_, ?_, ?_⟩
  · exact (hspent.step (salts_lawful cfg) (serve_keeps_salts cfg) hstep).mono Set.subset_union_left
  · refine ⟨UserFields.apply { passwordHash := some passwordHash } s.state.now u, ?_, ?_⟩
    · rw [hdb]
      show (s.state.db.setUser userId _ s.state.now).users.get userId = _
      rw [Db.get_setUser, hu]
      simp
    · have hnew : passwordHash.salt ∉ ({u.passwordHash.salt} : Set Nat) := hspent.not_gone hf.1 rfl
      intro heq
      rw [UserFields.apply_passwordHash, Option.getD_some] at heq
      exact hnew (by rw [heq]; exact Set.mem_singleton _)
  · intro sid r hr hopened
    have howner := (hopened.given hserved'.2.1).2 r hr
    rw [hdb] at hr
    apply Db.revokedAt_of_covers hr howner
    intro old hold
    have hbefore : s.state.db.refreshSessions.get sid = some old := hold
    obtain ⟨old', hold', hp⟩ := hg.evolves.db.sessions sid r (hserved.2.1.sessions sid old hbefore)
      (by rw [hdb]; exact hr)
    rw [hbefore, Option.some.injEq] at hold'
    rw [hold']
    exact uninterrupted_reset hf hC (hold' ▸ hbefore) (hp.userId.symm.trans howner)

theorem evicted_steps (hs : StepsIf cfg (uninterrupted cfg) (System.start (World.init now)) s) {userId : Uuid}
    {replaced : PasswordHash} (howned : salts.Owned {replaced.salt} s) (hevicted : Evicted userId replaced s.state)
    (h : StepsIf cfg (uninterrupted cfg) s t) : Served.Pool cfg t ∧ Evicted userId replaced t.state := by
  have key : Served.Pool cfg t ∧ salts.Owned {replaced.salt} t ∧ Evicted userId replaced t.state := by
    refine h.invariant (J := fun v => Served.Pool cfg v ∧ salts.Owned {replaced.salt} v ∧
      Evicted userId replaced v.state) ?_ ⟨served_steps hs (served_start now), howned, hevicted⟩
    intro v a v' hv hC ha
    obtain ⟨hserved, howned, hevicted⟩ := hv
    have hserved' : Served.Pool cfg v' := (service_sound cfg (fun _ _ => True)).step hserved trivial ha
    refine ⟨hserved', (howned.step (salts_lawful cfg) (serve_keeps_salts cfg) ha).mono Set.subset_union_left, ?_⟩
    rcases step_world hserved ha with ⟨-, -, hstate⟩ | ⟨i, op, rfl, hw, hg⟩ | ⟨e, rfl, he⟩
    · rw [hstate]
      exact hevicted
    · refine evicted_step hserved.2.1 hg ?_ ?_ hevicted
      · exact fun hkey => howned.not_gone hw hkey (Set.mem_singleton _)
      · exact fun user expiresAt u hop hu => uninterrupted_login hw hC hop hu
    · obtain ⟨hdb, -, -, hresponses, -⟩ := World.event_frame he
      refine ⟨?_, ?_⟩
      · rw [hdb]
        exact hevicted.other
      · intro sid r hr hopened
        rw [hdb] at hr
        unfold OpenedWith at hopened
        rw [hresponses] at hopened
        exact hevicted.revoked sid r hr hopened
  exact ⟨key.1, key.2.2⟩

end Runs

/-- A password reset evicts everyone who logged in with the password it replaces, while
every session is opened under the hash that is still stored: no refresh of a session
opened with the replaced hash succeeds afterwards. -/
theorem reset_evicts (cfg : Config) (now : Time) (s s' t : Service) (userId : Uuid) (replaced : PasswordHash)
    (hs : StepsIf cfg (uninterrupted cfg) (System.start (World.init now)) s)
    (hreset : Replaces cfg (uninterrupted cfg) userId replaced s s') (ht : StepsIf cfg (uninterrupted cfg) s' t) (sid : Uuid)
    (hopened : OpenedWith t.state sid userId replaced) :
    ∀ j presenter gen reading session,
      ¬ (service cfg).Fires t j (.rotate sid presenter gen reading) (.ok (some session)) := by
  obtain ⟨hs', howned, hevicted⟩ := hreset.evicted hs
  obtain ⟨hserved, hevicted'⟩ := evicted_steps hs' howned hevicted ht
  intro j presenter gen reading session hrotate
  have heff := execOp_effect cfg (.rotate sid presenter gen reading) t.state
  have hanswer : (execOp cfg (.rotate sid presenter gen reading) t.state).1 = .ok (some session) := hrotate.2
  rw [hanswer] at heff
  obtain ⟨row, hrow, hrot, -⟩ := heff.of_rotate
  have hrevoked := hevicted'.revoked sid row hrow hopened
  simp only [RefreshSession.rotatable, Bool.and_eq_true, Option.isNone_iff_eq_none] at hrot
  rw [hrot.1.2] at hrevoked
  cases hrevoked

/-! A login, and a reset. -/

/-- The transaction of a reset, begun when the ids below `bound` were given out. -/
abbrev sampleResetTo (passwordHash : PasswordHash) (bound : Nat) : Op :=
  .resetPassword 0 passwordHash (sampleReset 7) ⟨bound⟩

/-- A run up to the commit of a reset, and what follows it. -/
theorem replaces_of_run (c : Service → Action Request Event → Bool) (as bs : List (Action Request Event))
    (i : Nat) (passwordHash : PasswordHash) (bound : Nat) (user u : User) (p : Service → Bool)
    (h : ((service .sample).runIf c (System.start (World.init 0)) as).any (fun s =>
      ((service .sample).step s (.run i)).any (fun s' =>
        ((service .sample).runIf c s' bs).any (fun t => p t && decide (
          s.pending i = some (sampleResetTo passwordHash bound) ∧
          (execOp .sample (sampleResetTo passwordHash bound) s.state).1 = .ok user ∧
          s.state.db.users.get 0 = some u ∧ c s (.run i) = true)))) = true) :
    ∃ s s' t, StepsIf .sample c (System.start (World.init 0)) s ∧ Replaces .sample c 0 u.passwordHash s s' ∧
      StepsIf .sample c s' t ∧ p t = true := by
  obtain ⟨s, hs, h⟩ := (Option.any_eq_true _ _).mp h
  obtain ⟨s', hs', h⟩ := (Option.any_eq_true _ _).mp h
  obtain ⟨t, ht, h⟩ := (Option.any_eq_true _ _).mp h
  obtain ⟨hp, hfacts⟩ := Bool.and_eq_true_iff.mp h
  obtain ⟨hop, hanswer, hu, hc⟩ := of_decide_eq_true hfacts
  exact ⟨s, s', t, System.steps_of_runIf _ _ _ hs,
    ⟨i, passwordHash, sampleReset 7, ⟨bound⟩, user, u, ⟨Pool.waits_of_pending hop, hanswer⟩, hu, rfl, hc, hs'⟩,
    System.steps_of_runIf _ _ _ ht, hp⟩

/-- The sample user, while the link `jti` is pending. -/
def pendingUser (jti : Uuid) : User := { sampleUser with pendingPasswordResetJti := some jti }

/-- A user logs in and resets the password; the session's cookie is presented once more. -/
theorem reset_evicts_sample : ∃ s s' t, Replaces .sample (uninterrupted .sample) 0 ⟨2, "first"⟩ s s' ∧
    StepsIf .sample (uninterrupted .sample) s' t ∧ OpenedWith t.state 4 0 ⟨2, "first"⟩ ∧
    t.Waits 5 (.rotate 4 0 0 0) ∧ ∀ j presenter gen reading session,
      ¬ (service .sample).Fires t j (.rotate 4 presenter gen reading) (.ok (some session)) := by
  have hrun := replaces_of_run (uninterrupted .sample)
    (signIn ++ [.env (.replicate 0)] ++ serially 3 4 (.forgotPassword "ada@example.org") ++
      serially 4 6 (.resetPassword (sampleReset 7) "second")) (serially 5 14 (.refresh (sampleRefresh 6 0)))
    4 ⟨9, "second"⟩ 10 { pendingUser 7 with passwordHash := ⟨9, "second"⟩ } (pendingUser 7)
    (fun t => decide (t.state.responses.any (opens 4 0 ⟨2, "first"⟩) = true ∧
      t.pending 5 = some (.rotate 4 0 0 0))) (by decide +kernel)
  obtain ⟨s, s', t, hs, hreset, ht, hlast⟩ := hrun
  obtain ⟨hopened, hop⟩ := of_decide_eq_true hlast
  have hopened' := openedWith_iff.mpr hopened
  exact ⟨s, s', t, hreset, ht, hopened', Pool.waits_of_pending hop,
    reset_evicts .sample 0 s s' t 0 ⟨2, "first"⟩ hs hreset ht 4 hopened'⟩

/-- What the theorem says, without its condition. -/
def EveryResetEvicts : Prop := ∀ (now : Time) (s s' t : Service) (userId : Uuid) (replaced : PasswordHash)
  (sid : Uuid), StepsIf .sample anyStep (System.start (World.init now)) s →
  Replaces .sample anyStep userId replaced s s' → StepsIf .sample anyStep s' t →
  OpenedWith t.state sid userId replaced → ∀ j presenter gen reading session,
    ¬ (service .sample).Fires t j (.rotate sid presenter gen reading) (.ok (some session))

/-- A reset is about to commit, and a login has checked the old password. -/
def overtaking : List (Action Request Event) :=
  signIn ++ [.env (.replicate 0)] ++ serially 3 2 (.login "ada@example.org" "first") ++
    serially 4 4 (.forgotPassword "ada@example.org") ++ serially 5 6 (.resetPassword (sampleReset 7) "second")

/-- The refresh of the session that the login opens. -/
def overtaken : List (Action Request Event) :=
  serially 6 14 (.refresh { sampleRefresh 12 0 with session := some (10, 0) })

/-- The reset left the session of that login alone. -/
theorem not_evicts_of_run (as bs : List (Action Request Event))
    (h : ((service .sample).runIf anyStep (System.start (World.init 0)) as).any (fun s =>
      ((service .sample).step s (.run 5)).any (fun s' =>
        ((service .sample).runIf anyStep s' bs).any (fun t => decide (
          t.state.responses.any (opens 10 0 ⟨2, "first"⟩) = true ∧ t.pending 6 = some (.rotate 10 0 0 0) ∧
          (execOp .sample (.rotate 10 0 0 0) t.state).1 =
            .ok (some ((newSession 10 0 1728000000000).rotated 0))) && decide (
          s.pending 5 = some (sampleResetTo ⟨9, "second"⟩ 10) ∧
          (execOp .sample (sampleResetTo ⟨9, "second"⟩ 10) s.state).1 =
            .ok { pendingUser 7 with passwordHash := ⟨9, "second"⟩ } ∧
          s.state.db.users.get 0 = some (pendingUser 7) ∧ anyStep s (.run 5) = true)))) = true) :
    ¬ EveryResetEvicts := by
  intro hevicts
  obtain ⟨s, s', t, hs, hreset, ht, hlast⟩ := replaces_of_run anyStep as bs 5 ⟨9, "second"⟩ 10 _ _ _ h
  obtain ⟨hopened, hop, hanswer⟩ := of_decide_eq_true hlast
  exact hevicts 0 s s' t 0 ⟨2, "first"⟩ 10 hs hreset ht (openedWith_iff.mpr hopened) 6 0 0 0 _
    ⟨Pool.waits_of_pending hop, hanswer⟩

/-- A login has checked the password when a reset replaces it; the session it opens
afterwards is refreshed. -/
theorem login_overtaken_by_reset : ¬ EveryResetEvicts :=
  not_evicts_of_run overtaking (.run 3 :: overtaken) (by decide +kernel)

/-- The login commits its session while the reset is between its UPDATE of the sessions
and its COMMIT. -/
theorem login_missed_by_reset : ¬ EveryResetEvicts :=
  not_evicts_of_run (overtaking ++ [.run 3]) overtaken (by decide +kernel)

end FastiKit
