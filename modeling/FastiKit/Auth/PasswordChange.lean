import FastiKit.Interleave.Serial
import FastiKit.Auth.Calls

/- Sessions opened under a password that was changed since.

   A reset revokes every session of its user in the transaction that stores the new
   hash; a PATCH stores a new hash and leaves the sessions alone
   (`session_outlives_password`). When requests do not overlap that is the only way
   for a session to outlive the password it was opened with
   (`sessions_under_current_password`). -/
namespace FastiKit

open Interleave Relational

/-- Not revoked and not expired. -/
def RefreshSession.live (r : RefreshSession) (now : Time) : Bool :=
  r.revokedAt.isNone && decide (now < r.expiresAt)

/-- The session was opened by a login of the user that checked the password against this
hash: a login answers with the user as it read it for the check. -/
def OpenedWith (w : World) (sid userId : Uuid) (passwordHash : PasswordHash) : Prop :=
  ∃ email password user session,
    (Request.login email password, Except.ok (Response.tokens user session)) ∈ w.responses ∧
      session.id = sid ∧ user.id = userId ∧ user.passwordHash = passwordHash

/-- The response of such a login. -/
def opens (sid userId : Uuid) (passwordHash : PasswordHash) : Request × Except Err Response → Bool
  | (.login _ _, .ok (.tokens user session)) =>
    session.id = sid && user.id = userId && user.passwordHash = passwordHash
  | _ => false

theorem openedWith_iff {w : World} {sid userId : Uuid} {passwordHash : PasswordHash} :
    OpenedWith w sid userId passwordHash ↔ w.responses.any (opens sid userId passwordHash) = true := by
  rw [List.any_eq_true]
  constructor
  · intro h
    obtain ⟨email, password, user, session, hmem, hid, howner, hhash⟩ := h
    exact ⟨_, hmem, by simp [opens, hid, howner, hhash]⟩
  · intro h
    obtain ⟨⟨req, out⟩, hmem, hopens⟩ := h
    cases req with
    | login email password =>
      rcases out with e | response
      · cases hopens
      · cases response with
        | tokens user session =>
          simp only [opens, Bool.and_eq_true, decide_eq_true_eq] at hopens
          exact ⟨email, password, user, session, hmem, hopens.1.1, hopens.1.2, hopens.2⟩
        | _ => cases hopens
    | _ => cases hopens

/-- A PATCH that sets the password and commits finds no live session of its user. -/
def noLiveSession (cfg : Config) (s : Service) : Action Request Event → Bool
  | .run i =>
    match patched cfg s i with
    | some (userId, fields) => fields.passwordHash.isNone ||
      s.state.db.refreshSessions.rows.all (fun r => r.userId ≠ userId || !r.live s.state.now)
    | none => true
  | _ => true

/-- Requests that do not overlap, whose PATCHes meet the condition. -/
abbrev Separate (cfg : Config) (s : Service) (a : Action Request Event) : Prop :=
  alone s a = true ∧ noLiveSession cfg s a = true

/-- What nothing has come in between of: a session is opened for a user as the table has
it, and the UPDATE of a reset sees every session there is when it commits. -/
structure InOnePiece (op : Op) (w : World) : Prop where
  login : ∀ user expiresAt, op = .createSession user expiresAt →
    ∃ u, w.db.users.get user.id = some u ∧ u.passwordHash = user.passwordHash
  reset : ∀ userId passwordHash token snapshot, op = .resetPassword userId passwordHash token snapshot →
    ∀ sid r, w.db.refreshSessions.get sid = some r → snapshot.shows r.id = true

theorem InOnePiece.of_ne {op : Op} {w : World} (hlogin : ∀ user expiresAt, op ≠ .createSession user expiresAt)
    (hreset : ∀ userId passwordHash token snapshot, op ≠ .resetPassword userId passwordHash token snapshot) :
    InOnePiece op w :=
  ⟨fun user expiresAt e => absurd e (hlogin user expiresAt),
    fun userId passwordHash token snapshot e => absurd e (hreset userId passwordHash token snapshot)⟩

theorem Quiet.inOnePiece {op : Op} (h : Quiet op) (w : World) : InOnePiece op w := by
  apply InOnePiece.of_ne
  · rintro user expiresAt rfl
    cases h
  · rintro userId passwordHash token snapshot rfl
    cases h

/-- The regime of a request that nothing else disturbs. -/
abbrev undisturbed (cfg : Config) : Regime Op World :=
  (regime cfg).undisturbed (fun w v => v.db = w.db) InOnePiece

/-- A login opens its session with the hash it checked, if nothing else writes in
between. -/
theorem ready_login_undisturbed (cfg : Config) (email password : String) (w : World) :
    Ready (undisturbed cfg) (execOp cfg) (fun _ op s _ => InOnePiece op s)
      (serve cfg (.login email password)) w := by
  intro v _ _
  have hread : InOnePiece (.getUserByEmail email true) v := Quiet.inOnePiece rfl v
  simp only [execOp, if_true]
  cases hu : v.db.users.rows.find? (fun r => r.email = email) with
  | none => exact hread
  | some user =>
    show After _ _ _ (Prog.bind (Prog.bind (ite _ _ _) _) _) _ _ _
    split
    · exact hread
    · refine ⟨hread, ?_⟩
      intro s hs _
      refine ⟨Quiet.inOnePiece rfl s, ?_⟩
      intro t ht _
      have hget : t.db.users.get user.id = some user := by
        have hdb : t.db = v.db := ht.2.trans hs.2
        rw [hdb]
        exact Table.get_of_mem (List.mem_of_find?_eq_some hu)
      have hcurrent : InOnePiece (.createSession user ((execOp cfg .clock s).1 + cfg.sessionTtl)) t := by
        refine ⟨?_, fun _ _ _ _ h => (by cases h)⟩
        intro user' expiresAt hop
        cases hop
        exact ⟨user, hget, rfl⟩
      generalize (execOp cfg (.createSession user _) t).1 = r
      cases r <;> exact hcurrent

/-- A reset begins its UPDATE of the sessions with all there are at its commit. -/
theorem ready_reset_undisturbed (cfg : Config) (token : TokenPayload) (newPassword : String) {w : World}
    (hs : Sane w) : Ready (undisturbed cfg) (execOp cfg) (fun _ op s _ => InOnePiece op s)
      (serve cfg (.resetPassword token newPassword)) w := by
  have hserves : Serves cfg (undisturbed cfg) := ⟨fun _ _ _ h => h.1, fun _ w hq => hq.inOnePiece w⟩
  rw [serve]
  apply ready_bind
  apply ready_quiet_bind hserves rfl (decode_uses _ _ _ _ _) hs
  · intro payload v hp hwv hv
    rw [AuthService.userForToken]
    intro s _ _
    have hread : InOnePiece (.getUser payload.sub true) s := Quiet.inOnePiece rfl s
    simp only [execOp, if_true]
    cases hu : s.db.users.get payload.sub with
    | none => exact hread
    | some user =>
      show After _ _ _ (ite _ _ _) _ _ _
      split
      · exact hread
      · show After _ _ _ (ite _ _ _) _ _ _
        split
        · exact hread
        · apply after_of_ready hread
          intro s' _ _
          apply after_of_ready (Quiet.inOnePiece rfl s')
          rintro s'' ⟨⟨-, hs''⟩, -⟩ _
          apply after_of_ready (Quiet.inOnePiece rfl s'')
          rintro t ⟨-, hdb⟩ _
          have hsees : InOnePiece (.resetPassword user.id (cfg.hashpw newPassword (execOp cfg .gensalt s').1)
              payload (execOp cfg (.snapshot []) s'').1) t := by
            refine ⟨fun _ _ h => (by cases h), ?_⟩
            intro userId passwordHash token' snapshot hop sid r hr
            cases hop
            have hr' : s''.db.refreshSessions.get sid = some r := by
              rw [← (show t.db = s''.db from hdb)]
              exact hr
            rw [Table.get_key hr']
            exact decide_eq_true (hs''.sessions sid r hr')
          generalize (execOp cfg (.snapshot []) s'').1 = snapshot at hsees
          cases hr : (execOp cfg (.resetPassword user.id (cfg.hashpw newPassword (execOp cfg .gensalt s').1)
              payload snapshot) t).1 with
          | error e =>
            obtain ⟨e', he'⟩ := orInvalidToken_raise "Reset link already used" e
            show After _ _ _ (AuthService.orInvalidToken _ (.raise e)) _ _ _
            rw [he']
            exact hsees
          | ok _ => exact hsees
  · intro e op v _ hq _ _
    exact hq.inOnePiece v

/-- No other request opens a session or resets a password. -/
theorem ready_undisturbed (cfg : Config) (req : Request) {w : World} (hs : Sane w) (ha : w.accepts req = true) :
    Ready (undisturbed cfg) (execOp cfg) (fun _ op s _ => InOnePiece op s) (serve cfg req) w := by
  have hrest : (∀ op, Calls req op → ∀ v, InOnePiece op v) →
      Ready (undisturbed cfg) (execOp cfg) (fun _ op s _ => InOnePiece op s) (serve cfg req) w := by
    intro hcalls
    have hready : Ready (regime cfg) (service cfg).exec (Served cfg req) (serve cfg req) w :=
      ready_serve cfg req hs ha
    refine ready_of_uses (P := fun _ => True) ?_ ?_ ?_ (ready_next hready) (serve_calls cfg req) trivial
    · intro op v v' _ _ _ _
      trivial
    · intro op v v' hop _ _ _
      exact hcalls op hop v'
    · intro out op v v' hop _ _ _ _
      exact hcalls op hop v'
  cases req with
  | login email password => exact ready_login_undisturbed cfg email password w
  | resetPassword token newPassword => exact ready_reset_undisturbed cfg token newPassword hs
  | _ =>
    apply hrest
    intro op hop v
    apply InOnePiece.of_ne
    · rintro user expiresAt rfl
      cases hop
    · rintro userId passwordHash token snapshot rfl
      cases hop

/-- The same, asked for the service's guarantee as well. -/
abbrev separately (cfg : Config) : Regime Op World :=
  (undisturbed cfg).watch (fun op w w' => (regime cfg).guar op w w' ∧ InOnePiece op w)

theorem sound_separately (cfg : Config) :
    Sound (service cfg) (separately cfg) (fun s a => True ∧ alone s a = true) (fun s => True ∧ s.Single) Sane
      (fun _ _ _ => True) := by
  apply (service_sound cfg (fun _ _ => True)).serial
  · intro w
    rfl
  · intro w v e v' hwv he
    rw [(World.event_frame he).1, hwv]
  · intro w req hs ha
    exact ready_undisturbed cfg req hs ha

/-! One step. -/

/-- Every live session was opened with its user's present hash. -/
def UnderCurrentPassword (w : World) : Prop :=
  ∀ sid r, w.db.refreshSessions.get sid = some r → r.live w.now = true →
    ∃ u, w.db.users.get r.userId = some u ∧ OpenedWith w sid r.userId u.passwordHash

/-- What is asked of an operation in `w`, if it is a PATCH that commits. -/
def SparesSessions (cfg : Config) (op : Op) (w : World) : Prop :=
  ∀ userId fields r, op = .updateUser userId fields → fields.passwordHash.isSome = true →
    r ∈ w.db.refreshSessions.rows → r.userId = userId → (execOp cfg op w).2.db = w.db ∨ r.live w.now = false

theorem noLiveSession_run {cfg : Config} {s : Service} {i : Nat} {op : Op} (hw : s.Waits i op)
    (h : noLiveSession cfg s (.run i) = true) : SparesSessions cfg op s.state := by
  intro userId fields r hop hsome hr howner
  subst hop
  rcases patched_or_unchanged cfg hw with hpatched | hsame
  · right
    simp only [noLiveSession, hpatched, Bool.or_eq_true, Option.isNone_iff_eq_none] at h
    rcases h with hnone | hall
    · rw [hnone] at hsome
      cases hsome
    · simpa [howner] using List.all_eq_true.mp hall r hr
  · exact .inl hsame

theorem OpenedWith.evolves {w w' : World} {sid userId : Uuid} {passwordHash : PasswordHash}
    (h : OpenedWith w sid userId passwordHash) (hev : Evolves w w') : OpenedWith w' sid userId passwordHash := by
  obtain ⟨email, password, user, session, hmem, hrest⟩ := h
  exact ⟨email, password, user, session, hev.responses _ hmem, hrest⟩

theorem RefreshSession.Precedes.live {r r' : RefreshSession} (h : r.Precedes r') {now now' : Time}
    (hnow : now ≤ now') (hlive : r'.live now' = true) : r.live now = true := by
  simp only [RefreshSession.live, Bool.and_eq_true, decide_eq_true_eq, Option.isNone_iff_eq_none] at hlive ⊢
  obtain ⟨hrevoked, hexp⟩ := hlive
  refine ⟨?_, ?_⟩
  · cases hr : r.revokedAt with
    | none => rfl
    | some stamp =>
      have hsame := h.revokedAt (by rw [hr]; rfl)
      rw [hrevoked, hr] at hsame
      cases hsame
  · rw [← h.expiresAt]
    exact Int.lt_of_le_of_lt hnow hexp

/-- The operations that set a password. -/
theorem Op.sets_passwordHash {op : Op} {userId : Uuid} {fields : UserFields}
    (hsets : op.sets = some (userId, fields)) :
    fields.passwordHash = none ∨ (op = .updateUser userId fields) ∨
      ∃ passwordHash token snapshot, op = .resetPassword userId passwordHash token snapshot := by
  cases op <;> cases hsets
  case updateUser => exact .inr (.inl rfl)
  case resetPassword passwordHash token snapshot => exact .inr (.inr ⟨passwordHash, token, snapshot, rfl⟩)
  all_goals exact .inl rfl

/-- A reset that commits leaves no session of its user that it covers. -/
theorem Effect.reset_sessions {w : World} {userId : Uuid} {passwordHash : PasswordHash} {token : TokenPayload}
    {snapshot : Snapshot} {r : (Op.resetPassword userId passwordHash token snapshot).Res} {db' : Db}
    (h : Effect w (.resetPassword userId passwordHash token snapshot) r db') :
    db' = w.db ∨ ∀ sid session, db'.refreshSessions.get sid = some session → session.userId = userId →
      (∀ old, w.db.refreshSessions.get sid = some old → snapshot.covers old = true) →
      session.revokedAt.isSome = true := by
  cases h with
  | same _ => exact .inl rfl
  | mailed hop _ _ => cases hop
  | reset hu ht =>
    exact .inr (fun sid session hget howner hcovers => Db.revokedAt_of_covers hget howner hcovers)

/-- One step, when a PATCH meets the condition and a login read its user's present
hash. -/
theorem underCurrentPassword_step {cfg : Config} {op : Op} {w w' : World} (hs : Sane w)
    (hg : Guarantee cfg op w w') (hpiece : InOnePiece op w) (hspares : SparesSessions cfg op w)
    (h : UnderCurrentPassword w) : UnderCurrentPassword w' := by
  intro sid r' hr' hlive'
  obtain ⟨r, heff, hnow, -⟩ := hg.effect
  have hev := hg.evolves
  rcases heff.session_ids hr' with ⟨row, hrow⟩ | ⟨rfl, user, expiresAt, rfl⟩
  · -- an old session, which was live before
    obtain ⟨r₀, hr₀, hp⟩ := hev.db.sessions sid r' (hs.sessions sid row hrow) hr'
    have hlive : r₀.live w.now = true := hp.live hev.now hlive'
    obtain ⟨u, hu, hopened⟩ := h sid r₀ hr₀ hlive
    rw [hp.userId]
    rcases heff.user hu with hsame | ⟨fields, hsets, hset⟩
    · exact ⟨u, hsame, hopened.evolves hev⟩
    · refine ⟨_, hset, ?_⟩
      rw [UserFields.apply_passwordHash]
      rcases Op.sets_passwordHash hsets with hnone | rfl | ⟨passwordHash, token, snapshot, rfl⟩
      · rw [hnone, Option.getD_none]
        exact hopened.evolves hev
      · cases hhash : fields.passwordHash with
        | none => exact hopened.evolves hev
        | some passwordHash =>
          have hmem := Table.mem_of_get hr₀
          rcases hspares _ fields r₀ rfl (by rw [hhash]; rfl) hmem rfl with hsame | hdead
          · -- it was refused
            rw [hg.db, hsame, hu] at hset
            have heq := congrArg User.passwordHash (Option.some.inj hset)
            rw [UserFields.apply_passwordHash, hhash] at heq
            rw [← heq]
            exact hopened.evolves hev
          · rw [hlive] at hdead
            cases hdead
      · rcases heff.reset_sessions with hsame | hrevoked
        · rw [hsame, hu] at hset
          rw [← UserFields.apply_passwordHash fields w.now u, ← Option.some.inj hset]
          exact hopened.evolves hev
        · have hdead := hrevoked sid r' hr' hp.userId (fun old hold =>
            Bool.or_eq_true_iff.mpr (.inl (hpiece.reset _ _ _ _ rfl sid old hold)))
          simp only [RefreshSession.live, Bool.and_eq_true, Option.isNone_iff_eq_none] at hlive'
          rw [hlive'.1] at hdead
          cases hdead
  · -- a login
    rcases hg.opened with hsame | ⟨email, password, session, hmem, hnew, husers, hget⟩
    · rw [hsame] at hr'
      exact absurd (hs.sessions _ _ hr') (Nat.lt_irrefl _)
    · rw [hget, if_pos rfl] at hr'
      obtain rfl := Option.some.inj hr'
      obtain ⟨u, hu, hhash⟩ := hpiece.login user expiresAt rfl
      have howner : session.userId = user.id := by rw [hnew]; rfl
      refine ⟨u, by rw [husers, howner]; exact hu, ?_⟩
      exact ⟨email, password, user, session, hmem, by rw [hnew]; rfl, howner.symm, hhash.symm⟩

/-! Runs. -/

/-- In runs of requests that do not overlap, every live session of a user was opened by
a login against the user's present password hash, while no PATCH sets the password of a
user with a live session. -/
theorem sessions_under_current_password (cfg : Config) (now : Time) (s : Service)
    (h : (service cfg).Steps (Separate cfg) (System.start (World.init now)) s) (sid : Uuid) (r : RefreshSession)
    (hr : s.state.db.refreshSessions.get sid = some r) (hlive : r.live s.state.now = true) :
    ∃ u, s.state.db.users.get r.userId = some u ∧ OpenedWith s.state sid r.userId u.passwordHash := by
  have hsound := sound_separately cfg
  have key : Served.Pool cfg s ∧
      PoolOk (service cfg) (separately cfg) (fun s => True ∧ s.Single) Sane (fun _ _ _ => True) s ∧
      UnderCurrentPassword s.state := by
    refine h.invariant (J := fun v => Served.Pool cfg v ∧
      PoolOk (service cfg) (separately cfg) (fun s => True ∧ s.Single) Sane (fun _ _ _ => True) v ∧
      UnderCurrentPassword v.state) ?_ ⟨served_start now, PoolOk.start ⟨trivial, ?_⟩ (Sane.init now), ?_⟩
    · intro v a v' hv hC ha
      obtain ⟨hserved, hok, hcurrent⟩ := hv
      refine ⟨(service_sound cfg (fun _ _ => True)).step hserved trivial ha,
        hsound.step hok ⟨trivial, hC.1⟩ ha, ?_⟩
      rcases step_world hserved ha with ⟨-, -, hstate⟩ | ⟨i, op, rfl, hw, hg⟩ | ⟨e, rfl, he⟩
      · rw [hstate]
        exact hcurrent
      · have hfires := hsound.fires hok ⟨trivial, hC.1⟩ ha hw
        exact underCurrentPassword_step hserved.2.1 hg hfires.2 (noLiveSession_run hw hC.2) hcurrent
      · obtain ⟨hdb, -, -, -, hnow⟩ := World.event_frame he
        intro sid r hr hlive
        rw [hdb] at hr ⊢
        obtain ⟨u, hu, hopened⟩ := hcurrent sid r hr ((RefreshSession.Precedes.refl r).live hnow hlive)
        exact ⟨u, hu, hopened.evolves (World.event_evolves he)⟩
    · intro i j op op' hi
      obtain ⟨th, hth, -⟩ := hi
      cases hth
    · intro sid r hr
      cases hr
  exact key.2.2 sid r hr hlive

/-- The session of a login at time zero. -/
def sampleSession : RefreshSession := newSession 4 0 1728000000000

/-- A user logs in, and asks for a new password by email. -/
theorem sessions_under_current_password_sample : ∃ s : Service, s.state.db.refreshSessions.get 4 = some sampleSession ∧
    sampleSession.live s.state.now = true ∧
    ∃ u, s.state.db.users.get 0 = some u ∧ OpenedWith s.state 4 0 u.passwordHash := by
  have hrun : ((service .sample).runIf (fun s a => alone s a && noLiveSession .sample s a) (System.start (World.init 0))
      (signIn ++ [.env (.replicate 0)] ++ serially 3 4 (.forgotPassword "ada@example.org"))).any (fun s =>
        decide (s.state.db.refreshSessions.get 4 = some sampleSession ∧
          sampleSession.live s.state.now = true)) = true := by decide +kernel
  obtain ⟨s, hs, hfacts⟩ := (Option.any_eq_true _ _).mp hrun
  obtain ⟨hget, hlive⟩ := of_decide_eq_true hfacts
  have hsteps : (service .sample).Steps (Separate .sample) (System.start (World.init 0)) s :=
    (System.steps_of_runIf _ _ _ hs).mono (fun _ _ hc => Bool.and_eq_true_iff.mp hc)
  exact ⟨s, hget, hlive, sessions_under_current_password .sample 0 s hsteps 4 sampleSession hget hlive⟩

/-- A user logs in and sets another password by a PATCH; the session lives on. -/
theorem session_outlives_password : ¬ ∀ (s : Service) (sid : Uuid) (r : RefreshSession),
    (service .sample).Steps (fun v a => alone v a = true) (System.start (World.init 0)) s →
    s.state.db.refreshSessions.get sid = some r → r.live s.state.now = true →
    ∃ u, s.state.db.users.get r.userId = some u ∧ OpenedWith s.state sid r.userId u.passwordHash := by
  intro h
  have hrun : ((service .sample).runIf alone (System.start (World.init 0))
      (signIn ++ serially 3 13 (.updateUser sampleAccess ⟨none, none, some (some "second")⟩))).any (fun s =>
        decide (s.state.db.refreshSessions.get 4 = some sampleSession ∧ sampleSession.live s.state.now = true ∧
          (s.state.db.users.get 0).map User.passwordHash = some ⟨7, "second"⟩ ∧
          s.state.responses.any (opens 4 0 ⟨7, "second"⟩) = false)) = true := by decide +kernel
  obtain ⟨s, hs, hfacts⟩ := (Option.any_eq_true _ _).mp hrun
  obtain ⟨hget, hlive, hhash, hnone⟩ := of_decide_eq_true hfacts
  obtain ⟨u, hu, hopened⟩ := h s 4 sampleSession (System.steps_of_runIf _ _ _ hs) hget hlive
  have hu' : s.state.db.users.get 0 = some u := hu
  have hopened' : OpenedWith s.state 4 0 u.passwordHash := hopened
  rw [hu', Option.map_some, Option.some.injEq] at hhash
  rw [openedWith_iff, hhash, hnone] at hopened'
  cases hopened'

end FastiKit
