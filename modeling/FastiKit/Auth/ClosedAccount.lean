import FastiKit.Interleave.Remainder
import FastiKit.Auth.Calls

/- What a closed account still allows.

   After a closure of the user `u` has committed, no refresh passes its user check
   for `u`, and the sessions that the closure's UPDATE of `refresh_sessions` saw are
   revoked. What is left is a session that a login commits while the closure is
   between that UPDATE and its COMMIT, with a refresh of it that passes the user
   check in the same window: its rotate commits after the closure
   (`closed_account_refreshed`). Where no refresh is past its check with such a
   session when the closure commits, no rotate of a session of `u` commits again, also
   not of one that a login racing with the closure opens after it
   (`closed_account_not_refreshed`).

   A request begun after the closure leaves the address, the name and the password
   hash of `u` alone, if it is not a PATCH of `u` that changes one of them
   (`closed_account_frozen`). `closed_account_rewritten` is a run in which such a
   PATCH, made with the access token of another device, changes the name: the route
   asks for a token and not for an active user. -/
namespace FastiKit

open Interleave Relational

/-- The user was deactivated. -/
def Deactivated (w : World) (userId : Uuid) : Prop :=
  ∃ u, w.db.users.get userId = some u ∧ u.isActive = false

theorem Deactivated.evolves {w v : World} {userId : Uuid} (h : Deactivated w userId) (hev : Evolves w v) :
    Deactivated v userId := by
  obtain ⟨u, hu, hact⟩ := h
  obtain ⟨u', hu', hact'⟩ := hev.db.users userId u hu
  exact ⟨u', hu', hact' hact⟩

/-- A closure that commits deactivates its user. -/
theorem deactivated_of_closure {cfg : Config} {s s' : Service} {i : Nat} {userId : Uuid} {tokens : List TokenRef}
    {snapshot : Snapshot} {user : User} (hs : Served.Pool cfg s)
    (hf : (service cfg).Fires s i (.closeAccount userId tokens snapshot) (.ok (some user)))
    (ha : (service cfg).step s (.run i) = some s') : Deactivated s'.state userId := by
  have hg := run_guarantee hs hf.1 ha
  obtain ⟨hdb, u, hu, hact⟩ := closeAccount_closes cfg hf.2
  exact ⟨u, by rw [hg.db, hdb]; exact hu, hact⟩

/-! Refreshes past their user check. -/

/-- The session and the user that an operation rotates. -/
def Op.rotates : Op → Option (Uuid × Uuid)
  | .rotate sessionId userId _ _ => some (sessionId, userId)
  | _ => none

/-- The session and the user of a refresh that has passed its user check and has not
rotated yet: it reads the clock once more, and then runs the UPDATE. -/
def rotating : Api Response → Option (Uuid × Uuid)
  | .call .clock k => (k (0 : Time)).next.bind Op.rotates
  | p => p.next.bind Op.rotates

/-- A closure commits while every session of its user that a refresh past its user check
presents is one that its UPDATE of `refresh_sessions` saw, or revoked already. -/
def seesRotating (s : Service) : Action Request Event → Bool
  | .run i =>
    match s.pending i with
    | some (.closeAccount userId _ snapshot) => s.threads.all (fun th =>
        !th.live || (rotating th.code).all (fun (sessionId, presenter) => presenter ≠ userId ||
          (s.state.db.refreshSessions.get sessionId).all snapshot.covers))
    | _ => true
  | _ => true

section Checks
variable {cfg : Config} {userId : Uuid}

/-- No rotate of the user. -/
def Op.spares (userId : Uuid) (op : Op) : Prop := ∀ sessionId, op.rotates ≠ some (sessionId, userId)

/-- The answer is not that the user is there and active. -/
def Uncleared (userId : Uuid) : (op : Op) → op.Res → Prop
  | .getUser id true, answer => id = userId → ∀ user, answer = some user → user.isActive = false
  | _, _ => True

/-- The program does not rotate for the user any more, unless it reads it active. -/
abbrev Barred (userId : Uuid) (p : Api Response) : Prop := p.Only (Uncleared userId) (Op.spares userId)

/-- Until a refresh has read the user active it is barred; from then until its rotate it
is found rotating the session it presents. -/
def BarredOrRotating (userId : Uuid) (req : Request) (p : Api Response) : Prop :=
  Barred userId p ∨ ∃ cookie sessionId generation, req = .refresh cookie ∧
    cookie.session = some (sessionId, generation) ∧ cookie.sub = userId ∧ rotating p = some (sessionId, userId)

theorem Quiet.spares {op : Op} (h : Quiet op) : op.spares userId := by
  cases op <;> first | (cases h; done) | exact fun _ hop => (by cases hop)

/-- Only a refresh rotates. -/
theorem Calls.spares {req : Request} {op : Op} (h : Calls req op) (hreq : ∀ cookie, req ≠ .refresh cookie) :
    op.spares userId := by
  cases op with
  | rotate sessionId id generation now =>
    cases req with
    | refresh cookie => exact absurd rfl (hreq cookie)
    | _ => cases h
  | _ => exact fun _ hop => by cases hop

/-- A refresh of another user's session, and any other request, is barred all along. -/
theorem serve_spares (cfg : Config) (req : Request)
    (hreq : ∀ cookie, req = .refresh cookie → cookie.sub ≠ userId) :
    (serve cfg req).Uses (Op.spares userId) (fun _ => True) := by
  apply (serve_calls cfg req).mono _ (fun _ h => h)
  intro op hop
  by_cases hrefresh : ∃ cookie, req = .refresh cookie
  · obtain ⟨cookie, rfl⟩ := hrefresh
    intro sessionId hrotates
    cases op with
    | rotate sid id generation now =>
      cases hrotates
      exact hreq cookie rfl hop.2.symm
    | _ => cases hrotates
  · exact Calls.spares hop (fun cookie heq => hrefresh ⟨cookie, heq⟩)

/-- What a refresh runs once its token has passed. -/
abbrev refreshing (cfg : Config) (sessionId userId : Uuid) (generation : Nat) : Api Response :=
  AuthService.refresh cfg userId sessionId generation >>= fun (user, session) => return .tokens user session

theorem refreshing_barred (sessionId : Uuid) (generation : Nat) :
    Barred userId (refreshing cfg sessionId userId generation) := by
  refine ⟨fun _ h => (by cases h), ?_⟩
  intro answer huncleared
  cases answer with
  | none => trivial
  | some user =>
    have hinactive : user.isActive = false := huncleared rfl user rfl
    show Prog.Only _ _ (Prog.bind (ite _ _ _) _)
    rw [if_pos (by simp [hinactive])]
    trivial

theorem refreshing_always {cookie : TokenPayload} {sessionId : Uuid} {generation : Nat}
    (hclaims : cookie.session = some (sessionId, generation)) (howner : cookie.sub = userId) :
    (refreshing cfg sessionId userId generation).Always (BarredOrRotating userId (.refresh cookie)) := by
  -- barred is what calls no rotate at all
  have hbarred : ∀ q : Api Response, q.Uses (Op.spares userId) (fun _ => True) →
      BarredOrRotating userId (.refresh cookie) q :=
    fun q hq => .inl (Prog.only_of_uses (fun _ h => h) hq)
  have hrotating : ∀ q : Api Response, rotating q = some (sessionId, userId) →
      BarredOrRotating userId (.refresh cookie) q :=
    fun q hq => .inr ⟨cookie, sessionId, generation, rfl, hclaims, howner, hq⟩
  have hquiet : ∀ {op : Op} {k : op.Res → Api Response}, Quiet op →
      (∀ r, (k r).Uses (Op.spares userId) (fun _ => True)) →
      (Prog.call op k : Api Response).Uses (Op.spares userId) (fun _ => True) :=
    fun hop hk => ⟨hop.spares, hk⟩
  refine ⟨.inl (refreshing_barred sessionId generation), ?_⟩
  intro answer
  cases answer with
  | none => exact .inl trivial
  | some user =>
    show Prog.Always _ (Prog.bind (ite _ _ _) _)
    split
    · exact .inl trivial
    · refine ⟨hrotating _ rfl, fun now => ⟨hrotating _ rfl, fun rotated => ?_⟩⟩
      -- whatever the rotate answers, the rest does not rotate
      apply Prog.always_of_uses hbarred
      rcases rotated with e | _ | session
      · trivial
      · refine hquiet rfl fun current => ?_
        cases current with
        | none => trivial
        | some current =>
          refine hquiet rfl fun now => ?_
          show Prog.Uses _ _ (Prog.bind (ite _ _ _) _)
          split
          · trivial
          · refine hquiet rfl fun now => ?_
            show Prog.Uses _ _ (Prog.bind (ite _ _ _) _)
            split
            · trivial
            · refine ⟨fun _ h => (by cases h), fun revoked => ?_⟩
              cases revoked <;> trivial
      · trivial

/-- The same with the claims still in the token. -/
abbrev checkedRefresh (cfg : Config) (payload : TokenPayload) : Api Response :=
  match refreshSessionClaims payload with
  | none => throw (.domain .invalidRefreshToken)
  | some (sessionId, generation) => refreshing cfg sessionId payload.sub generation

theorem checkedRefresh_of {P : Api Response → Prop} {payload : TokenPayload} (hraise : ∀ e, P (.raise e))
    (hrun : ∀ sessionId generation, payload.session = some (sessionId, generation) →
      P (refreshing cfg sessionId payload.sub generation)) : P (checkedRefresh cfg payload) := by
  unfold checkedRefresh
  cases hclaims : payload.session with
  | none =>
    simp only [refreshSessionClaims, hclaims]
    exact hraise _
  | some claims =>
    simp only [refreshSessionClaims, hclaims]
    exact hrun claims.1 claims.2 hclaims

/-- While a refresh is at quiet operations, before its user check, it is barred. -/
theorem checking_barred {cookie : TokenPayload} {q : Api TokenPayload} {L : Except Err TokenPayload → Prop}
    (hq : q.Uses Quiet L) (hL : ∀ payload, L (.ok payload) → payload = cookie) :
    Barred cookie.sub (q >>= checkedRefresh cfg) := by
  apply Prog.only_bind (fun _ hop => Quiet.spares hop) hq
  intro payload hpayload
  rw [hL payload hpayload]
  exact checkedRefresh_of (fun _ => trivial) (fun sessionId generation _ => refreshing_barred sessionId generation)

theorem serve_barred (cfg : Config) (userId : Uuid) (req : Request) : Barred userId (serve cfg req) := by
  by_cases hreq : ∃ cookie, req = .refresh cookie ∧ cookie.sub = userId
  · obtain ⟨cookie, rfl, rfl⟩ := hreq
    exact checking_barred (tokenRequired_uses .refresh cookie) (fun payload h => (h.1 payload rfl).1)
  · exact Prog.only_of_uses (fun _ h => h)
      (serve_spares cfg req (fun cookie heq howner => hreq ⟨cookie, heq, howner⟩))

theorem serve_barredOrRotating (cfg : Config) (userId : Uuid) (req : Request) :
    (serve cfg req).Always (BarredOrRotating userId req) := by
  by_cases hreq : ∃ cookie, req = .refresh cookie ∧ cookie.sub = userId
  · obtain ⟨cookie, rfl, rfl⟩ := hreq
    show Prog.Always _ (tokenRequired .refresh cookie >>= checkedRefresh cfg)
    apply Prog.always_bind _ (tokenRequired_uses .refresh cookie)
    · intro payload hpayload
      obtain ⟨rfl, -⟩ := hpayload.1 payload rfl
      exact checkedRefresh_of (fun _ => .inl trivial)
        (fun sessionId generation hclaims => refreshing_always hclaims rfl)
    · exact fun q hq => .inl (checking_barred hq (fun payload h => (h.1 payload rfl).1))
  · exact Prog.always_of_uses (fun q hq => .inl (Prog.only_of_uses (fun _ h => h) hq))
      (serve_spares cfg req (fun cookie heq howner => hreq ⟨cookie, heq, howner⟩))

end Checks

section Runs
variable {cfg : Config} {userId : Uuid} {now : Time} {s s' : Service}

/-- The session was there before, and is gone or revoked. -/
def SessionDead (sessionId : Uuid) (w : World) : Prop :=
  sessionId < w.uuids ∧ ∀ r, w.db.refreshSessions.get sessionId = some r → r.revokedAt.isSome = true

theorem SessionDead.evolves {w v : World} {sessionId : Uuid} (h : SessionDead sessionId w) (hev : Evolves w v) :
    SessionDead sessionId v := by
  refine ⟨Nat.lt_of_lt_of_le h.1 hev.uuids, ?_⟩
  intro r' hr'
  obtain ⟨r, hr, hp⟩ := hev.db.sessions sessionId r' h.1 hr'
  have hrevoked := h.2 r hr
  rw [hp.revokedAt hrevoked]
  exact hrevoked

/-- The pool after a closure: whoever is not barred presents a dead session. -/
structure ShutOut (cfg : Config) (userId : Uuid) (s : Service) : Prop where
  served : Served.Pool cfg s
  deactivated : Deactivated s.state userId
  threads : ∀ th ∈ s.threads, th.live = true → Barred userId th.code ∨ ∃ cookie sessionId generation,
    th.req = .refresh cookie ∧ cookie.session = some (sessionId, generation) ∧ SessionDead sessionId s.state

theorem ShutOut.step {a : Action Request Event} (h : ShutOut cfg userId s)
    (ha : (service cfg).step s a = some s') : ShutOut cfg userId s' := by
  have hev : Evolves s.state s'.state := steps_evolves (C := fun _ _ => True) (.single ⟨a, trivial, ha⟩) h.served
  refine ⟨(service_sound cfg (fun _ _ => True)).step h.served trivial ha, h.deactivated.evolves hev, ?_⟩
  intro th' hth' hlive
  rcases step_code ha hth' with ⟨th, hth, hreq, hwas, hcode⟩ | ⟨-, hcode⟩
  · rcases h.threads th hth (hwas hlive) with hbarred | ⟨cookie, sessionId, generation, hcookie, hclaims, hdead⟩
    · left
      rcases hcode with hsame | ⟨i, op, k, -, -, hcall, hcode⟩
      · rw [hsame]
        exact hbarred
      · -- the user check answers that the user is not active
        rw [hcall] at hbarred
        rw [hcode]
        apply hbarred.2
        cases op with
        | getUser id consistent =>
          cases consistent with
          | false => trivial
          | true =>
            rintro rfl user huser
            obtain ⟨u, hu, hinactive⟩ := h.deactivated
            have hread : s.state.db.users.get id = some user := huser
            rw [hu, Option.some.injEq] at hread
            rw [← hread]
            exact hinactive
        | _ => trivial
    · exact .inr ⟨cookie, sessionId, generation, hreq.symm.trans hcookie, hclaims, hdead.evolves hev⟩
  · rw [hcode]
    exact .inl (serve_barred cfg userId th'.req)

/-- The commit of a closure that saw the sessions of the refreshes past their check. -/
theorem shutOut_of_closure (h : Reaches cfg (System.start (World.init now)) s) {i : Nat} {tokens : List TokenRef}
    {snapshot : Snapshot} {user : User}
    (hf : (service cfg).Fires s i (.closeAccount userId tokens snapshot) (.ok (some user)))
    (hsees : seesRotating s (.run i) = true) (ha : (service cfg).step s (.run i) = some s') :
    ShutOut cfg userId s' := by
  have hs := served_steps h (served_start now)
  have h' : Reaches cfg (System.start (World.init now)) s' := h.snoc trivial ha
  have hs' := served_steps h' (served_start now)
  refine ⟨hs', deactivated_of_closure hs hf ha, ?_⟩
  intro th' hth' hlive
  have halways : th'.code.Always (BarredOrRotating userId th'.req) :=
    h'.always (serve_barredOrRotating cfg userId) (fun th hth => by cases hth) th' hth'
  rcases halways.now with hbarred | ⟨cookie, sessionId, generation, hreq, hclaims, howner, hrotating⟩
  · exact .inl hbarred
  · refine .inr ⟨cookie, sessionId, generation, hreq, hclaims, ?_⟩
    have hissued := requests_issued h' th' hth' cookie (by rw [hreq]; exact List.mem_singleton_self _)
    have hsigned := hs'.2.1.signed_of_session hissued (by rw [hclaims]; rfl)
    obtain ⟨hgiven, hrows⟩ := (hs'.2.1.signed cookie hsigned).2 sessionId generation hclaims
    refine ⟨hgiven, ?_⟩
    intro r' hr'
    have hrow : r'.userId = userId := (hrows r' hr').1.trans howner
    -- the refresh was there before the step, which was not its own
    have hcovers : (s.state.db.refreshSessions.get sessionId).all snapshot.covers = true := by
      rcases step_code ha hth' with ⟨th, hth, hreq', hwas, hsame | ⟨j, op, k, hwait, hrun, hcall, -⟩⟩ | ⟨hspawn, -⟩
      · simp only [seesRotating, Pool.pending_of_waits hf.1, List.all_eq_true] at hsees
        have hall := hsees th hth
        rw [← hsame, hrotating, hwas hlive] at hall
        simpa using hall
      · cases hrun
        obtain rfl := System.waits_unique hf.1 hwait
        have hwithin : System.Within Calls (fun _ _ => True) s :=
          h.within (fun req => serve_calls cfg req) (fun th hth => by cases hth)
        have huses := hwithin th hth
        rw [hcall, hreq', hreq] at huses
        cases huses.1
      · cases hspawn
    have hg := run_guarantee hs hf.1 ha
    obtain ⟨hdb, -⟩ := closeAccount_closes cfg hf.2
    rw [hg.db, hdb, Db.closeAccount] at hr'
    apply Db.revokedAt_of_covers hr' hrow
    intro r hr
    rw [(Db.addAll_frame tokens _).2.1] at hr
    have hget : s.state.db.refreshSessions.get sessionId = some r := hr
    rw [hget] at hcovers
    exact hcovers

end Runs

/-! A closure, and what two devices do around it. -/

/-- Two devices log in, and the second is about to close the account: its UPDATE of
`refresh_sessions` has begun. -/
def closing : List (Action Request Event) :=
  signIn ++ serially 3 3 (.login "ada@example.org" "first") ++
    serially 4 14 (.deleteUser { sub := 0, type := .access, jti := 8, exp := 900, session := none } none)

/-- The commit of that closure. -/
abbrev sampleClosure : Op := .closeAccount 0 [⟨8, 900000000⟩] ⟨10⟩

/-- The name is changed by a PATCH with the first device's token. -/
def rename : Request := .updateUser sampleAccess ⟨some (some "Eve"), none, none⟩

/-- The closure commits, and the last step of a PATCH begun after it changes the
name. -/
theorem closing_then_rename : ∃ s s' t t', Reaches .sample (System.start (World.init 0)) s ∧
    (service .sample).Fires s 4 sampleClosure (.ok (some { sampleUser with isActive := false })) ∧
    seesRotating s (.run 4) = true ∧
    (service .sample).step s (.run 4) = some s' ∧ s'.threads.length = 5 ∧
    (service .sample).run s' (serially 5 3 rename) = some t ∧ (service .sample).step t (.run 5) = some t' ∧
    (t.state.db.users.get 0).map User.fullName = some "Ada" ∧
    (t'.state.db.users.get 0).map User.fullName = some "Eve" := by
  have hrun : ((service .sample).run (System.start (World.init 0)) closing).any (fun s =>
      ((service .sample).step s (.run 4)).any (fun s' =>
        ((service .sample).run s' (serially 5 3 rename)).any (fun t =>
          ((service .sample).step t (.run 5)).any (fun t' => decide (
            s.pending 4 = some sampleClosure ∧
            (execOp .sample sampleClosure s.state).1 = .ok (some { sampleUser with isActive := false }) ∧
            seesRotating s (.run 4) = true ∧ s'.threads.length = 5 ∧
            (t.state.db.users.get 0).map User.fullName = some "Ada" ∧
            (t'.state.db.users.get 0).map User.fullName = some "Eve"))))) = true := by
    decide +kernel
  obtain ⟨s, hs, hrun⟩ := (Option.any_eq_true _ _).mp hrun
  obtain ⟨s', hs', hrun⟩ := (Option.any_eq_true _ _).mp hrun
  obtain ⟨t, ht, hrun⟩ := (Option.any_eq_true _ _).mp hrun
  obtain ⟨t', ht', hfacts⟩ := (Option.any_eq_true _ _).mp hrun
  obtain ⟨hpending, hanswer, hsees, hlen, hnames⟩ := of_decide_eq_true hfacts
  exact ⟨s, s', t, t', System.steps_of_run (fun _ _ => trivial) _ _ _ hs,
    ⟨Pool.waits_of_pending hpending, hanswer⟩, hsees, hs', hlen, ht, ht', hnames⟩

/-- A third device logs in, and its refresh passes the user check. -/
def straddling : List (Action Request Event) :=
  serially 5 3 (.login "ada@example.org" "first") ++
    serially 6 5 (.refresh { sampleRefresh 12 0 with session := some (10, 0) })

/-- A closed account is not refreshed, if the closure commits while no refresh is past
its user check with a session that the closure did not see: no rotate of one of the
user's sessions succeeds after it. -/
theorem closed_account_not_refreshed (cfg : Config) (now : Time) (s s' t : Service) (i : Nat) (userId : Uuid)
    (tokens : List TokenRef) (snapshot : Snapshot) (user : User) (h : Reaches cfg (System.start (World.init now)) s)
    (hf : (service cfg).Fires s i (.closeAccount userId tokens snapshot) (.ok (some user)))
    (hsees : seesRotating s (.run i) = true) (ha : (service cfg).step s (.run i) = some s')
    (ht : Reaches cfg s' t) :
    ∀ j sid presenter gen reading session,
      (service cfg).Fires t j (.rotate sid presenter gen reading) (.ok (some session)) →
      session.userId ≠ userId := by
  have hshut : ShutOut cfg userId t :=
    ht.invariant (fun _ _ _ hv _ ha => hv.step ha) (shutOut_of_closure h hf hsees ha)
  have ht' : Reaches cfg (System.start (World.init now)) t := (h.snoc trivial ha).trans ht
  intro j sid presenter gen reading session hrotate howner
  have heff := execOp_effect cfg (.rotate sid presenter gen reading) t.state
  have hanswer : (execOp cfg (.rotate sid presenter gen reading) t.state).1 = .ok (some session) := hrotate.2
  rw [hanswer] at heff
  obtain ⟨row, hrow, hrot, rfl, -⟩ := heff.of_rotate
  simp only [RefreshSession.rotatable, Bool.and_eq_true, decide_eq_true_eq, Option.isNone_iff_eq_none] at hrot
  have hpresenter : presenter = userId := hrot.1.1.1.symm.trans howner
  obtain ⟨th, hth, hcalls⟩ := waits_calls ht' hrotate.1
  obtain ⟨th', hth', hlive, hnext⟩ := hrotate.1
  rw [hth, Option.some.injEq] at hth'
  subst hth'
  rcases hshut.threads th (List.mem_of_getElem? hth) hlive with hbarred | ⟨cookie, sessionId, generation, hreq, hclaims, hdead⟩
  · -- its code would rotate for the user
    cases hcode : th.code with
    | ret a => rw [hcode] at hnext; cases hnext
    | raise e => rw [hcode] at hnext; cases hnext
    | call op k =>
      rw [hcode] at hnext hbarred
      cases hnext
      exact hbarred.1 sid (by rw [hpresenter]; rfl)
  · rw [hreq] at hcalls
    obtain ⟨hsession, -⟩ := hcalls
    rw [hclaims] at hsession
    cases hsession
    have hrevoked := hdead.2 row hrow
    rw [hrot.1.2] at hrevoked
    cases hrevoked

theorem closed_account_not_refreshed_sample : ∃ s', Reaches .sample (System.start (World.init 0)) s' ∧
    ∀ j sid presenter gen reading session,
      (service .sample).Fires s' j (.rotate sid presenter gen reading) (.ok (some session)) →
      session.userId ≠ 0 := by
  obtain ⟨s, s', -, -, hs, hf, hsees, ha, -⟩ := closing_then_rename
  have hs' : Reaches .sample (System.start (World.init 0)) s' := hs.snoc trivial ha
  exact ⟨s', hs', closed_account_not_refreshed .sample 0 s s' s' 4 0 _ _ _ hs hf hsees ha .refl⟩

/-- Without that condition one is: while the closure is between its UPDATE and its
COMMIT, a third device logs in and its refresh passes the user check. -/
theorem closed_account_refreshed :
    ¬ ∀ (s s' t : Service) (i : Nat) (userId : Uuid) (tokens : List TokenRef) (snapshot : Snapshot) (user : User),
      Reaches .sample (System.start (World.init 0)) s →
      (service .sample).Fires s i (.closeAccount userId tokens snapshot) (.ok (some user)) →
      (service .sample).step s (.run i) = some s' → Reaches .sample s' t →
      ∀ j sid presenter gen reading session,
        (service .sample).Fires t j (.rotate sid presenter gen reading) (.ok (some session)) →
        session.userId ≠ userId := by
  intro hclaim
  have hrun : ((service .sample).run (System.start (World.init 0)) (closing ++ straddling)).any (fun s =>
      ((service .sample).step s (.run 4)).any (fun s' => decide (
        s.pending 4 = some sampleClosure ∧
        (execOp .sample sampleClosure s.state).1 = .ok (some { sampleUser with isActive := false }) ∧
        s'.pending 6 = some (.rotate 10 0 0 0) ∧ (execOp .sample (.rotate 10 0 0 0) s'.state).1 =
          .ok (some ((newSession 10 0 1728000000000).rotated 0))))) = true := by decide +kernel
  obtain ⟨s, hs, hrun⟩ := (Option.any_eq_true _ _).mp hrun
  obtain ⟨s', hs', hfacts⟩ := (Option.any_eq_true _ _).mp hrun
  obtain ⟨hclosure, hanswer, hrotate, hrotated⟩ := of_decide_eq_true hfacts
  exact hclaim s s' s' 4 0 _ _ _ (System.steps_of_run (fun _ _ => trivial) _ _ _ hs)
    ⟨Pool.waits_of_pending hclosure, hanswer⟩ hs' .refl 6 10 0 0 0 _
    ⟨Pool.waits_of_pending hrotate, hrotated⟩ rfl

/-! What later requests do to the user's row. -/

/-- The user's address, name and password hash are the same. -/
def SameProfile (userId : Uuid) (w w' : World) : Prop :=
  ∀ u, w.db.users.get userId = some u → ∃ u', w'.db.users.get userId = some u' ∧
    u'.email = u.email ∧ u'.fullName = u.fullName ∧ u'.passwordHash = u.passwordHash

/-- The fields set in the user's row leave the profile alone. -/
def UserFields.keepsProfile (fields : UserFields) : Prop :=
  fields.email.join = none ∧ fields.fullName.join = none ∧ fields.passwordHash = none

theorem SameProfile.of_effect {userId : Uuid} {w w' : World} {op : Op} {r : op.Res}
    (h : Effect w op r w'.db) (hop : ∀ fields, op.sets = some (userId, fields) → fields.keepsProfile) :
    SameProfile userId w w' := by
  intro u hu
  rcases h.user hu with hsame | ⟨fields, hsets, hnew⟩
  · exact ⟨u, hsame, rfl, rfl, rfl⟩
  · obtain ⟨hemail, hname, hpassword⟩ := hop fields hsets
    refine ⟨_, hnew, ?_, ?_, ?_⟩
    · have hjoin : fields.email.bind id = none := hemail
      rw [UserFields.apply_email, hjoin, Option.getD_none]
    · have hjoin : fields.fullName.bind id = none := hname
      rw [UserFields.apply_fullName, hjoin, Option.getD_none]
    · rw [UserFields.apply_passwordHash, hpassword, Option.getD_none]

/-- The operations that can set the profile. -/
def Op.setsProfile : Op → Bool
  | .updateUser _ _ | .resetPassword _ _ _ _ => true
  | _ => false

theorem Op.keepsProfile {op : Op} (h : op.setsProfile = false) {userId : Uuid} {fields : UserFields}
    (hsets : op.sets = some (userId, fields)) : fields.keepsProfile := by
  cases op <;> cases hsets <;> first | exact ⟨rfl, rfl, rfl⟩ | cases h

theorem Quiet.setsProfile {op : Op} (h : Quiet op) : op.setsProfile = false := by
  cases op <;> first | rfl | cases h

section Requests
variable {cfg : Config} {userId : Uuid}

/-- The regime of a request that must leave the user's profile alone. -/
abbrev keeping (cfg : Config) (userId : Uuid) : Regime Op World :=
  (regime cfg).watch (fun _ w w' => SameProfile userId w w')

theorem Quiet.sameProfile {op : Op} (h : Quiet op) (w : World) :
    SameProfile userId w (execOp cfg op w).2 :=
  .of_effect (execOp_effect cfg op w) (fun _ hsets => Op.keepsProfile h.setsProfile hsets)

/-- A reset link of a deactivated user changes nothing. -/
theorem ready_resetPassword_deactivated {token : TokenPayload} {newPassword : String} {w : World}
    (hs : Sane w) (hd : Deactivated w userId) :
    Ready (keeping cfg userId) (execOp cfg) (fun _ _ w w' => SameProfile userId w w')
      (serve cfg (.resetPassword token newPassword)) w := by
  have hserves : Serves cfg (keeping cfg userId) := serves_watch (fun op w hq => hq.sameProfile w)
  rw [serve]
  apply ready_bind
  apply ready_quiet_bind hserves rfl (decode_uses _ _ _ _ _) hs
  · intro payload v hp hwv hv
    obtain ⟨rfl, -⟩ := hp _ rfl
    rw [AuthService.userForToken]
    intro s hs _
    have hread : SameProfile userId s (execOp cfg (.getUser payload.sub true) s).2 := Quiet.sameProfile rfl s
    simp only [execOp, if_true]
    cases hu : s.db.users.get payload.sub with
    | none => exact hread
    | some user =>
      have hid : user.id = payload.sub := Table.get_key hu
      show After _ _ _ (ite _ _ _) _ _ _
      split
      · exact hread
      · next hactive =>
        -- the user read is active, so another one
        have hother : payload.sub ≠ userId := by
          intro heq
          obtain ⟨u, hu', hact⟩ := hd.evolves (hwv.trans hs.1)
          rw [← heq, hu] at hu'
          cases hu'
          simp [hact] at hactive
        show After _ _ _ (ite _ _ _) _ _ _
        split
        · exact hread
        · rw [hid]
          apply after_of_ready hread
          intro s' _ _
          apply after_of_ready (Quiet.sameProfile rfl s')
          intro v' _ _
          apply after_of_ready (Quiet.sameProfile rfl v')
          generalize (execOp cfg (.snapshot []) v').1 = snapshot
          intro t _ _
          have hsame : SameProfile userId t (execOp cfg (.resetPassword payload.sub
              (cfg.hashpw newPassword (execOp cfg .gensalt s').1) payload snapshot) t).2 := by
            apply SameProfile.of_effect (execOp_effect cfg _ t)
            intro fields hsets
            cases hsets
            exact absurd rfl hother
          cases hr : (execOp cfg (.resetPassword payload.sub
              (cfg.hashpw newPassword (execOp cfg .gensalt s').1) payload snapshot) t).1 with
          | error e =>
            obtain ⟨e', he'⟩ := orInvalidToken_raise "Reset link already used" e
            show After _ _ _ (AuthService.orInvalidToken _ (.raise e)) _ _ _
            rw [he']
            exact hsame
          | ok user => exact hsame
  · intro e op v _ hq _ _
    exact hq.sameProfile v

/-- The later requests, those from the thread `n` on, that the pool knows: a password
reset is watched. -/
structure LaterRequests (cfg : Config) (userId : Uuid) (n : Nat) (s : Service) : Prop where
  served : Served.Pool cfg s
  within : System.Within Calls (fun _ _ => True) s
  deactivated : Deactivated s.state userId
  reset : ∀ j th, n ≤ j → s.threads[j]? = some th → ∀ token newPassword,
    th.req = .resetPassword token newPassword →
    Watch (service cfg) (keeping cfg userId) (fun _ _ _ w w' => SameProfile userId w w') s j

theorem LaterRequests.step {n : Nat} {s s' : Service} {a : Action Request Event}
    (h : LaterRequests cfg userId n s) (ha : (service cfg).step s a = some s') :
    LaterRequests cfg userId n s' := by
  have hsound := service_sound cfg (fun _ _ => True)
  refine ⟨hsound.step h.served trivial ha, h.within.step (fun req => serve_calls cfg req) ha, ?_, ?_⟩
  · exact h.deactivated.evolves (steps_evolves (C := fun _ _ => True) (.single ⟨a, trivial, ha⟩) h.served)
  · intro j th hj hth token newPassword hreq
    rcases step_request ha hth with ⟨th₀, hth₀, hreq₀⟩ | ⟨rfl, rfl⟩
    · have hlt : j < s.threads.length := (List.getElem?_eq_some_iff.mp hth₀).1
      exact hsound.watch_step h.served trivial ha hlt
        (h.reset j th₀ hj hth₀ token newPassword (hreq₀.trans hreq))
    · rw [hreq] at ha
      have hrefl : ∀ op, (regime cfg).rely op s.state s.state := fun _ => ⟨.refl _, h.served.2.1⟩
      exact (watch_spawn (K := fun _ _ _ w w' => SameProfile userId w w') hrefl ha
        (ready_resetPassword_deactivated h.served.2.1 h.deactivated)).2

/-- The PATCHes of the user that commit leave the profile alone. -/
abbrev Unpatched (cfg : Config) (userId : Uuid) (s : Service) (i : Nat) : Prop :=
  ∀ fields, patched cfg s i = some (userId, fields) → fields.keepsProfile

/-- A later request's step. -/
theorem LaterRequests.sameProfile {n : Nat} {s s' : Service} {j : Nat} (h : LaterRequests cfg userId n s)
    (hj : n ≤ j) (hpatch : Unpatched cfg userId s j) (ha : (service cfg).step s (.run j) = some s') :
    SameProfile userId s.state s'.state := by
  obtain ⟨req, op, k, hth, -⟩ := System.step_run ha
  have hwait : s.Waits j op := ⟨_, hth, rfl, rfl⟩
  have hg := run_guarantee h.served hwait ha
  have heff := execOp_effect cfg op s.state
  rw [← hg.db] at heff
  obtain ⟨th, hth', hcalls⟩ := h.within.waits hwait
  rw [hth] at hth'
  cases hth'
  cases hsets : op.setsProfile with
  | false => exact .of_effect heff (fun _ hop => Op.keepsProfile hsets hop)
  | true =>
    cases op with
    | updateUser id fields =>
      rcases patched_or_unchanged cfg hwait with hpatched | hsame
      · apply SameProfile.of_effect heff
        intro fields' hop
        cases hop
        exact hpatch fields hpatched
      · intro u hu
        rw [hg.db, hsame]
        exact ⟨u, hu, rfl, rfl, rfl⟩
    | resetPassword id passwordHash token snapshot =>
      cases req with
      | resetPassword token' newPassword =>
        obtain ⟨-, op', -, ⟨hsame, -⟩ | ⟨req', out, -, hsame, hstate⟩⟩ :=
          (service_sound cfg (fun _ _ => True)).watch_own h.served trivial ha
            (h.reset j _ hj hth token' newPassword rfl)
        · exact hsame
        · intro u hu
          have hdb : s'.state.db = (execOp cfg op' s.state).2.db := by
            rw [hstate]
            exact ((execOp cfg op' s.state).2.respond_db cfg req' out).1
          rw [hdb]
          exact hsame u hu
      | _ => cases hcalls
    | _ => cases hsets

end Requests

/-- A closed account is frozen but for PATCH: no step of a request begun after the
closure changes the user's address, name or password hash, if it is not the UPDATE of a
PATCH that sets one of them and commits. -/
theorem closed_account_frozen (cfg : Config) (now : Time) (s s' t t' : Service) (i j : Nat) (userId : Uuid)
    (tokens : List TokenRef) (snapshot : Snapshot) (user : User) (h : Reaches cfg (System.start (World.init now)) s)
    (hf : (service cfg).Fires s i (.closeAccount userId tokens snapshot) (.ok (some user)))
    (ha : (service cfg).step s (.run i) = some s') (ht : Reaches cfg s' t) (hj : s'.threads.length ≤ j)
    (hpatch : Unpatched cfg userId t j) (hstep : (service cfg).step t (.run j) = some t') :
    SameProfile userId t.state t'.state := by
  have hs := served_steps h (served_start now)
  have hs' := (service_sound cfg (fun _ _ => True)).step hs trivial ha
  have hreach : Reaches cfg (System.start (World.init now)) s' := h.snoc trivial ha
  have hstart : LaterRequests cfg userId s'.threads.length s' := by
    refine ⟨hs', ?_, deactivated_of_closure hs hf ha, ?_⟩
    · exact hreach.within (fun req => serve_calls cfg req) (fun th hth => by cases hth)
    · intro k th hk hth
      exact absurd (List.getElem?_eq_some_iff.mp hth).1 (Nat.not_lt.mpr hk)
  have hlater := ht.invariant (fun _ _ _ hv _ ha => LaterRequests.step hv ha) hstart
  exact hlater.sameProfile hj hpatch hstep

/-- The first step of a login after a closure. -/
theorem closed_account_frozen_sample :
    ∃ s' t t', Reaches .sample (System.start (World.init 0)) s' ∧
      (service .sample).step s' (.spawn (.login "ada@example.org" "first")) = some t ∧
      (service .sample).step t (.run 5) = some t' ∧ SameProfile 0 t.state t'.state := by
  obtain ⟨s, s', -, -, hs, hf, -, ha, hlen, -⟩ := closing_then_rename
  have hspawn : ∃ t, (service .sample).step s' (.spawn (.login "ada@example.org" "first")) = some t := ⟨_, rfl⟩
  obtain ⟨t, ht⟩ := hspawn
  have hwait : t.Waits 5 (.getUserByEmail "ada@example.org" true) := by
    obtain ⟨-, rfl⟩ := System.step_spawn ht
    exact ⟨_, by rw [← hlen]; exact List.getElem?_concat_length, rfl, rfl⟩
  have hrun : ∃ t', (service .sample).step t (.run 5) = some t' := System.step_of_waits hwait
  obtain ⟨t', ht'⟩ := hrun
  have hpatch : Unpatched .sample 0 t 5 := by
    intro fields hpatched
    simp only [patched, Pool.pending_of_waits hwait] at hpatched
    cases hpatched
  exact ⟨s', t, t', hs.snoc trivial ha, ht, ht', closed_account_frozen .sample 0 s s' t t' 4 5 0 _ _ _ hs hf ha
    (.single ⟨_, trivial, ht⟩) (by rw [hlen]) hpatch ht'⟩

/-- Nor is it frozen without that condition: after the closure of an account, a
PATCH with the token of another device changes the name. -/
theorem closed_account_rewritten :
    ¬ ∀ (s s' t t' : Service) (i j : Nat) (userId : Uuid) (tokens : List TokenRef) (snapshot : Snapshot)
      (user : User), Reaches .sample (System.start (World.init 0)) s →
      (service .sample).Fires s i (.closeAccount userId tokens snapshot) (.ok (some user)) →
      (service .sample).step s (.run i) = some s' → Reaches .sample s' t → s'.threads.length ≤ j →
      (service .sample).step t (.run j) = some t' → SameProfile userId t.state t'.state := by
  intro hclaim
  obtain ⟨s, s', t, t', hs, hf, -, ha, hlen, ht, hstep, hbefore, hafter⟩ := closing_then_rename
  obtain ⟨u, hu, hname⟩ := Option.map_eq_some_iff.mp hbefore
  obtain ⟨u', hu', hname'⟩ := Option.map_eq_some_iff.mp hafter
  have hreach : Reaches .sample s' t := System.steps_of_run (fun _ _ => trivial) _ _ _ ht
  obtain ⟨u'', hu'', -, hsame, -⟩ := hclaim s s' t t' 4 5 0 _ _ _ hs hf ha hreach (by rw [hlen]) hstep u hu
  rw [hu'] at hu''
  cases hu''
  rw [hname, hname'] at hsame
  exact absurd hsame (by decide)

end FastiKit
