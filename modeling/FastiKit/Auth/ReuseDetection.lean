import FastiKit.Auth.Obligations

/- A refresh token presented after its generation was rotated away gives the
   session up, whatever runs beside it.

   What is proved, of a refresh request that presents a generation the session
   had passed more than the grace period before the request began:
     1. it issues no token;
     2. if it gets past the user check, the session is revoked, expired or purged
        when it is answered;
     3. from then on no refresh of the session that is still to begin succeeds,
        and one in flight can only commit with a clock reading it took while the
        session had not expired.

   `RefreshEnds` says how a refresh request can end, and `ready_refreshEnds` that
   it ends in no other way; the results are case analyses over it. -/
namespace FastiKit

open Interleave Relational

/-- How a refresh request made in `w` ends: its outcome, its last operation, and
the worlds before and after that. `current` is the row as it was read in `v`. -/
inductive RefreshEnds (cfg : Config) (cookie : TokenPayload) (sid : Uuid) (gen : Nat) (w : World) :
    Except Err Response → Op → World → World → Prop where
  | refused {detail : String} {op : Op} {s : World} (hq : Quiet op) :
      RefreshEnds cfg cookie sid gen w (.error (.authx detail)) op s (execOp cfg op s).2
  | inactive {s : World} :
      RefreshEnds cfg cookie sid gen w (.error (.domain .invalidCredentials)) (.getUser cookie.sub true) s s
  | rotated {user : User} {session : RefreshSession} {reading : Time} {s : World} (hws : Evolves w s)
      (hread : w.now ≤ reading)
      (hr : (execOp cfg (.rotate sid cookie.sub gen reading) s).1 = .ok (some session)) :
      RefreshEnds cfg cookie sid gen w (.ok (.tokens user session)) (.rotate sid cookie.sub gen reading) s
        (execOp cfg (.rotate sid cookie.sub gen reading) s).2
  | gone {s : World} (hws : Evolves w s) (hr : s.db.refreshSessions.get sid = none) :
      RefreshEnds cfg cookie sid gen w (.error (.domain .invalidRefreshToken)) (.getSession sid) s s
  | dead {current : RefreshSession} {v s : World} (hwv : Evolves w v) (hvs : Evolves v s)
      (hr : v.db.refreshSessions.get sid = some current) (hown : current.userId = cookie.sub)
      (hdead : AuthService.isLive current cookie.sub s.now = false) :
      RefreshEnds cfg cookie sid gen w (.error (.domain .invalidRefreshToken)) .clock s s
  | conflict {current : RefreshSession} {v s : World} {detail : String} (hwv : Evolves w v)
      (hvs : Evolves v s) (hr : v.db.refreshSessions.get sid = some current)
      (hjust : AuthService.wasJustRotatedFrom cfg current gen s.now = true) :
      RefreshEnds cfg cookie sid gen w (.error (.domain (.conflict detail))) .clock s s
  | reused {current : RefreshSession} {v t s : World} (hwv : Evolves w v) (hvt : Evolves v t)
      (hts : Evolves t s) (hr : v.db.refreshSessions.get sid = some current)
      (hlate : AuthService.wasJustRotatedFrom cfg current gen t.now = false) :
      RefreshEnds cfg cookie sid gen w (.error (.domain .invalidRefreshToken)) (.revokeSession sid) s
        (execOp cfg (.revokeSession sid) s).2

section Ends
variable {cfg : Config}

/-- What may be asked of the steps of a refresh request: no more than its quiet
operations and a rotate that takes nothing satisfy. -/
structure Askable (cfg : Config) (cookie : TokenPayload) (sid : Uuid) (gen : Nat)
    (G : Op → World → World → Prop) : Prop where
  quiet : ∀ op w, Quiet op → G op w (execOp cfg op w).2
  rotate : ∀ reading w, (execOp cfg (.rotate sid cookie.sub gen reading) w).1 = .ok none →
    G (.rotate sid cookie.sub gen reading) w (execOp cfg (.rotate sid cookie.sub gen reading) w).2

variable {G : Op → World → World → Prop}

/-- A rotate is not answered with an error, and one that answers `none` leaves
the world as it was. -/
theorem rotate_answer (cfg : Config) (sid userId : Uuid) (gen : Nat) (reading : Time) (t : World) :
    (∃ session, (execOp cfg (.rotate sid userId gen reading) t).1 = .ok (some session)) ∨
      (execOp cfg (.rotate sid userId gen reading) t).1 = .ok none ∧
        Evolves t (execOp cfg (.rotate sid userId gen reading) t).2 := by
  have hrot := transaction_rotate cfg sid userId gen reading t.db
  simp only [execOp, World.transact]
  rcases hrot with ⟨-, h⟩ | ⟨row, -, -, h⟩
  · right
    rw [h]
    exact ⟨rfl, .of_same rfl (Int.le_refl _) (Nat.le_refl _) rfl rfl rfl (fun _ h => List.mem_cons_of_mem _ h)⟩
  · left
    rw [h]
    exact ⟨_, rfl⟩

/-- After the re-read: the two checks at two clock readings, and the revoke. -/
theorem ready_reread {α : Type} {cookie : TokenPayload} {sid : Uuid} {gen : Nat} {w v : World}
    {current : RefreshSession} (hG : Askable cfg cookie sid gen G) (hwv : Evolves w v) (hr : v.db.refreshSessions.get sid = some current)
    (hown : current.userId = cookie.sub) :
    Ready ((regime cfg).watch G) (execOp cfg)
      (fun out op s s' => ∃ e, out = .error e ∧ RefreshEnds cfg cookie sid gen w (.error e) op s s')
      ((do
        if !AuthService.isLive current cookie.sub (← now) then throw (.domain .invalidRefreshToken)
        if AuthService.wasJustRotatedFrom cfg current gen (← now) then
          throw (.domain (.conflict "Refresh token was just rotated; retry with the latest cookie"))
        orRaise (← api (.revokeSession sid))
        throw (.domain .invalidRefreshToken)) : Api α) v := by
  intro s hs _
  show After _ _ _ (ite _ _ _) _ _ _
  split
  · next hdead =>
    have hdead : (!AuthService.isLive current cookie.sub s.now) = true := hdead
    exact ⟨_, rfl, .dead hwv hs.1 hr hown (by simpa using hdead)⟩
  · refine ⟨hG.quiet .clock s rfl, ?_⟩
    intro t ht _
    have hvt : Evolves v t := hs.1.trans ht.1
    show After _ _ _ (ite _ _ _) _ _ _
    split
    · next hjust => exact ⟨_, rfl, .conflict hwv hvt hr hjust⟩
    · next hlate =>
      refine ⟨hG.quiet .clock t rfl, ?_⟩
      intro u hu _
      -- the UPDATE of `revoke` raises nothing
      exact ⟨_, rfl, .reused hwv hvt hu.1 hr (Bool.eq_false_iff.mpr hlate)⟩

theorem ready_refreshEnds {cookie : TokenPayload} {sid : Uuid} {gen : Nat} {w : World}
    (hG : Askable cfg cookie sid gen G) (hses : cookie.session = some (sid, gen)) (hs : Sane w) (ha : w.issued cookie = true) :
    Ready ((regime cfg).watch G) (execOp cfg) (RefreshEnds cfg cookie sid gen w) (serve cfg (.refresh cookie))
      w := by
  have hsigned : cookie ∈ w.signed := hs.signed_of_session ha (by rw [hses]; rfl)
  rw [serve]
  apply ready_bind
  apply ready_quiet (serves_watch hG.quiet) rfl (tokenRequired_uses .refresh cookie) hs
  intro out op v hq hout hwv hv
  cases out with
  | error e =>
    obtain ⟨detail, rfl⟩ := hout.2 e rfl
    exact .refused hq
  | ok payload =>
    obtain ⟨rfl, -⟩ := hout.1 payload rfl
    simp only [refreshSessionClaims, hses]
    have hwv' : Evolves w (execOp cfg op v).2 := hwv.trans hq.evolves
    refine ⟨hG.quiet op v hq, ?_⟩
    generalize (execOp cfg op v).2 = v' at hwv'
    -- the user check
    intro s hs _
    simp only [execOp, if_true]
    cases hu : s.db.users.get payload.sub with
    | none => exact .inactive
    | some user =>
      show After _ _ _ (Prog.bind (ite _ _ _) _) _ _ _
      split
      · exact .inactive
      · refine ⟨hG.quiet (.getUser payload.sub true) s rfl, ?_⟩
        intro s' hs' _
        have hws' : Evolves w s' := (hwv'.trans hs.1).trans hs'.1
        refine ⟨hG.quiet .clock s' rfl, ?_⟩
        -- the rotate
        intro t ht _
        have hwt : Evolves w t := hws'.trans ht.1
        have hread : w.now ≤ (execOp cfg .clock s').1 := hws'.now
        generalize (execOp cfg .clock s').1 = reading at hread
        rcases rotate_answer cfg sid payload.sub gen reading t with ⟨session, hr⟩ | ⟨hr, hafter⟩
        · have hend : RefreshEnds cfg payload sid gen w (.ok (.tokens user session)) _ t _ :=
            .rotated hwt hread hr
          rw [hr]
          exact hend
        · have hasked := hG.rotate reading t hr
          rw [hr]
          generalize (execOp cfg (.rotate sid payload.sub gen reading) t).2 = t' at hafter hasked
          refine ⟨hasked, ?_⟩
          -- the re-read
          intro u hu' _
          have hwu : Evolves w u := (hwt.trans hafter).trans hu'.1
          simp only [execOp]
          cases hrow : u.db.refreshSessions.get sid with
          | none => exact .gone hwu hrow
          | some current =>
            have hown : current.userId = payload.sub :=
              (((hu'.2.signed payload (hwu.signed payload hsigned)).2 sid gen hses).2 current hrow).1
            apply after_of_ready (hG.quiet (.getSession sid) u rfl)
            apply ready_bind
            refine (ready_reread hG hwu hrow hown).mono ?_
            intro out op s s' hout
            obtain ⟨e, rfl, hends⟩ := hout
            exact hends

/-- What the ends of a refresh request say of the request itself. -/
theorem Replies.refreshEnds {s s' : Service} {cookie : TokenPayload} {sid : Uuid} {gen : Nat}
    {out : Except Err Response} (hs : Served.Pool cfg s) (hses : cookie.session = some (sid, gen))
    (hc : Replies cfg s (.refresh cookie) out s') :
    cookie ∈ s.state.signed ∧ ∃ (v : Service) (op : Op) (w : World), Reaches cfg s v ∧
      RefreshEnds cfg cookie sid gen s.state out op v.state w ∧ s'.state = w.respond cfg (.refresh cookie) out := by
  have hacc := hc.accepts
  have hissued : s.state.issued cookie = true := by
    simpa [service, World.accepts, Request.tokens] using hacc
  have hready : Ready ((regime cfg).watch (fun _ _ _ => True)) (execOp cfg) (RefreshEnds cfg cookie sid gen s.state)
      (serve cfg (.refresh cookie)) s.state :=
    ready_refreshEnds ⟨fun _ _ _ => trivial, fun _ _ _ => trivial⟩ hses hs.2.1 hissued
  obtain ⟨v, op, hv, -, hends, hstate⟩ := (service_sound cfg (fun _ _ => True)).completes hs hc
    (G := fun _ _ _ => True) (K := fun _ => RefreshEnds cfg cookie sid gen s.state) hready
  exact ⟨hs.2.1.signed_of_session hissued (by rw [hses]; rfl), v, op, _, hv, hends, hstate⟩

end Ends

/-! The session a replayed token gives up. -/

/-- The session is revoked, expired or purged. -/
def NotLive (w : World) (sid : Uuid) : Prop :=
  ∀ r, w.db.refreshSessions.get sid = some r → r.revokedAt.isSome = true ∨ r.expiresAt ≤ w.now

theorem NotLive.of_precedes {w : World} {sid : Uuid} {t : Time} (ht : t ≤ w.now)
    (h : ∀ r, w.db.refreshSessions.get sid = some r →
      ∃ r₀ : RefreshSession, r₀.Precedes r ∧ (r₀.revokedAt.isSome = true ∨ r₀.expiresAt ≤ t)) :
    NotLive w sid := by
  intro r hr
  obtain ⟨r₀, hp, hrev | hexp⟩ := h r hr
  · left
    rw [hp.revokedAt hrev]
    exact hrev
  · right
    rw [hp.expiresAt]
    exact Int.le_trans hexp ht

/-- A session that was not live when it was read is not live later. -/
theorem NotLive.of_dead {v s : World} {sid userId : Uuid} {current : RefreshSession} (hvs : Evolves v s)
    (hsid : sid < v.uuids) (hr : v.db.refreshSessions.get sid = some current) (hown : current.userId = userId)
    (hdead : AuthService.isLive current userId s.now = false) : NotLive s sid := by
  apply NotLive.of_precedes (Int.le_refl _)
  intro r hr'
  obtain ⟨r₀, hr₀, hp⟩ := hvs.db.sessions sid r hsid hr'
  rw [hr] at hr₀
  cases hr₀
  refine ⟨current, hp, ?_⟩
  simp only [AuthService.isLive, hown, decide_true, Bool.true_and, Bool.and_eq_false_iff,
    decide_eq_false_iff_not, Int.not_lt] at hdead
  rcases hdead with hrev | hexp
  · left
    cases hopt : current.revokedAt with
    | none => rw [hopt] at hrev; cases hrev
    | some t => rfl
  · exact .inr hexp

/-- A rotate of a session that is not live commits only with a reading from
before the session expired. -/
theorem NotLive.rotate {cfg : Config} {w s : World} {sid : Uuid} (h : NotLive w sid) (hsid : sid < w.uuids)
    (hws : Evolves w s) {userId : Uuid} {gen : Nat} {reading : Time} {session : RefreshSession}
    (hr : (execOp cfg (.rotate sid userId gen reading) s).1 = .ok (some session)) :
    reading < session.expiresAt ∧ session.expiresAt ≤ w.now := by
  have heff := execOp_effect cfg (.rotate sid userId gen reading) s
  rw [hr] at heff
  obtain ⟨row, hrow, hrot, rfl, -⟩ := heff.of_rotate
  simp only [RefreshSession.rotatable, Bool.and_eq_true, decide_eq_true_eq] at hrot
  obtain ⟨⟨-, hrev⟩, hexp⟩ := hrot
  refine ⟨hexp, ?_⟩
  show row.expiresAt ≤ w.now
  obtain ⟨row₀, hrow₀, hp⟩ := hws.db.sessions sid row hsid hrow
  rcases h row₀ hrow₀ with hdead | hdead
  · rw [← hp.revokedAt hdead] at hdead
    rw [Option.isNone_iff_eq_none.mp hrev] at hdead
    cases hdead
  · rw [hp.expiresAt]
    exact hdead

/-- The row is past the generation, and if by one rotation only, that one was
stamped before `t`. -/
structure RefreshSession.PastSince (gen : Nat) (t : Time) (r : RefreshSession) : Prop where
  generation : gen < r.generation
  stamp : r.generation = gen + 1 → ∃ stamp, r.rotatedAt = some stamp ∧ stamp < t

theorem RefreshSession.PastSince.precedes {gen : Nat} {t : Time} {r r' : RefreshSession}
    (hp : r.Precedes r') (h : r.PastSince gen t) : r'.PastSince gen t := by
  have hgen := h.generation
  have hle := hp.generation
  refine ⟨by omega, ?_⟩
  intro hone
  -- it was one rotation before, too, and the same one
  have hsame : r'.generation = r.generation := by omega
  rw [hp.rotatedAt hsame]
  exact h.stamp (hsame ▸ hone)

/-- In `v` the session was past the generation, and by the moment `now` that was
more than the grace period ago, by the clock of `v` or by the row's own stamp. -/
def RotatedPast (cfg : Config) (v : World) (now : Time) (sid : Uuid) (gen : Nat) : Prop :=
  ∃ row, v.db.refreshSessions.get sid = some row ∧ gen < row.generation ∧
    (v.now + cfg.reuseGrace < now ∨ ∃ stamp, row.rotatedAt = some stamp ∧ stamp + cfg.reuseGrace < now)

theorem RotatedPast.pastSince {cfg : Config} {v : World} {now : Time} {sid : Uuid} {gen : Nat} (hv : Sane v)
    (h : RotatedPast cfg v now sid gen) :
    ∀ r, v.db.refreshSessions.get sid = some r → r.PastSince gen (now - cfg.reuseGrace) := by
  intro r hr
  obtain ⟨row, hrow, hgen, hpast⟩ := h
  rw [hr] at hrow
  cases hrow
  refine ⟨hgen, ?_⟩
  intro _
  rcases hpast with hclock | ⟨stamp, hstamp, hpast⟩
  · obtain ⟨stamp, hstamp, hle⟩ := hv.stamps sid r hr (Nat.lt_of_le_of_lt (Nat.zero_le gen) hgen)
    exact ⟨stamp, hstamp, by unfold Time at *; omega⟩
  · exact ⟨stamp, hstamp, by unfold Time at *; omega⟩

/-- The request was refused by `token_required`, or at the user check. -/
def Refused : Except Err Response → Prop
  | .error (.authx _) => True
  | .error (.domain .invalidCredentials) => True
  | _ => False

/-- However a replay ends: without a token, and past the user check with the
session given up. -/
theorem RefreshEnds.detected {cfg : Config} {cookie : TokenPayload} {sid : Uuid} {gen : Nat} {w : World}
    {out : Except Err Response} {op : Op} {s s' : World} (h : RefreshEnds cfg cookie sid gen w out op s s')
    (hsid : sid < w.uuids)
    (hpast : ∀ r, w.db.refreshSessions.get sid = some r → r.PastSince gen (w.now - cfg.reuseGrace)) :
    (∃ e, out = .error e) ∧ (¬ Refused out → NotLive s' sid) := by
  have hlater : ∀ {v : World}, Evolves w v → ∀ r, v.db.refreshSessions.get sid = some r →
      r.PastSince gen (w.now - cfg.reuseGrace) := by
    intro v hv
    exact hv.session hsid (fun _ _ hp hr => hr.precedes hp) hpast
  cases h with
  | refused => exact ⟨⟨_, rfl⟩, fun hpass => absurd trivial hpass⟩
  | inactive => exact ⟨⟨_, rfl⟩, fun hpass => absurd trivial hpass⟩
  | @rotated user session reading s hws hread hr =>
    -- the UPDATE asks for the generation itself, which the row has passed
    exfalso
    have heff := execOp_effect cfg (.rotate sid cookie.sub gen reading) s
    rw [hr] at heff
    obtain ⟨row, hrow, hrot, -, -⟩ := heff.of_rotate
    have hgen := (hlater hws row hrow).generation
    simp only [RefreshSession.rotatable, Bool.and_eq_true, decide_eq_true_eq] at hrot
    omega
  | gone hws hr =>
    refine ⟨⟨_, rfl⟩, fun _ r hr' => ?_⟩
    rw [hr] at hr'
    cases hr'
  | @dead current v s hwv hvs hr hown hdead =>
    exact ⟨⟨_, rfl⟩, fun _ => .of_dead hvs (Nat.lt_of_lt_of_le hsid hwv.uuids) hr hown hdead⟩
  | @conflict current v s detail hwv hvs hr hjust =>
    exfalso
    have hp := hlater hwv current hr
    simp only [AuthService.wasJustRotatedFrom, Bool.and_eq_true, decide_eq_true_eq] at hjust
    obtain ⟨stamp, hstamp, hlt⟩ := hp.stamp hjust.1
    have hwithin : s.now - stamp ≤ cfg.reuseGrace := by simpa [hstamp] using hjust.2
    have hnow : w.now ≤ s.now := Int.le_trans hwv.now hvs.now
    unfold Time at *
    omega
  | @reused current v t s hwv hvt hts hr hlate =>
    refine ⟨⟨_, rfl⟩, fun _ r hr => ?_⟩
    left
    have hr : (s.db.revokeWhere (fun r => r.id = sid) s.now).refreshSessions.get sid = some r := hr
    rw [Db.get_revokeWhere, Option.map_eq_some_iff] at hr
    obtain ⟨r₀, hr₀, rfl⟩ := hr
    have hid : r₀.id = sid := Table.get_key hr₀
    cases hrev : r₀.revokedAt with
    | none => simp [hid, RefreshSession.revoked]
    | some t => simp [hrev]

/-- Theft is detected: a refresh request that presents a generation rotated away
more than the grace period before ends without a token, the session is not live
when it is answered, and nothing brings the session back. -/
theorem refresh_reuse_detected (cfg : Config) (now : Time) (v s s' : Service) (cookie : TokenPayload)
    (sid : Uuid) (gen : Nat) (out : Except Err Response)
    (hv : Reaches cfg (System.start (World.init now)) v) (hvs : Reaches cfg v s)
    (hpast : RotatedPast cfg v.state s.state.now sid gen) (hses : cookie.session = some (sid, gen))
    (hc : Replies cfg s (.refresh cookie) out s') :
    (∃ e, out = .error e) ∧
    (¬ Refused out → NotLive s'.state sid ∧ ∀ t, Reaches cfg s' t →
      (∀ cookie' gen' out' t', cookie'.session = some (sid, gen') →
        Replies cfg t (.refresh cookie') out' t' → ∃ e, out' = .error e) ∧
      ∀ i userId gen' reading session,
        (service cfg).Fires t i (.rotate sid userId gen' reading) (.ok (some session)) →
        reading < session.expiresAt ∧ session.expiresAt ≤ s'.state.now) := by
  have hokv := served_steps hv (served_start now)
  have hok := served_steps hvs hokv
  have hsteps : Reaches cfg s s' := hc.steps
  obtain ⟨hsigned, u, op, w, hu, hends, hstate⟩ := Replies.refreshEnds hok hses hc
  have hsid : sid < v.state.uuids := by
    obtain ⟨row, hrow, -⟩ := hpast
    exact hokv.2.1.sessions sid row hrow
  have hev := steps_evolves hvs hokv
  have hsid' : sid < s.state.uuids := Nat.lt_of_lt_of_le hsid hev.uuids
  have hlater := hev.session hsid (fun _ _ hp hr => hr.precedes hp) (hpast.pastSince hokv.2.1)
  obtain ⟨herr, hdead⟩ := hends.detected hsid' hlater
  refine ⟨herr, fun hpass => ?_⟩
  have hnot : NotLive s'.state sid := by
    obtain ⟨hdb, hnow, -⟩ := w.respond_db cfg (.refresh cookie) out
    intro r hr
    rw [hstate, hdb] at hr
    rw [hstate, hnow]
    exact hdead hpass r hr
  have hsid'' : sid < s'.state.uuids := Nat.lt_of_lt_of_le hsid' (steps_evolves hsteps hok).uuids
  refine ⟨hnot, ?_⟩
  intro t ht
  have hok' := served_steps hsteps hok
  have hokt := served_steps ht hok'
  have hevt := steps_evolves ht hok'
  refine ⟨?_, ?_⟩
  · intro cookie' gen' out' t' hses' hc'
    obtain ⟨-, u', op', w', -, hends', -⟩ := Replies.refreshEnds hokt hses' hc'
    cases hends' with
    | @rotated user session reading x htx hread hr =>
      -- the reading is from after the session ran out
      exfalso
      obtain ⟨hlt, hle⟩ := hnot.rotate hsid'' (hevt.trans htx) hr
      have hnow := hevt.now
      unfold Time at *
      omega
    | _ => exact ⟨_, rfl⟩
  · intro i userId gen' reading session hf
    exact hnot.rotate hsid'' hevt hf.2

/-- The first refresh token presented again eleven seconds after its refresh. -/
theorem refresh_reuse_detected_sample :
    ∃ s s', Reaches .sample (System.start (World.init 0)) s ∧
      Replies .sample s (.refresh (sampleRefresh 6 0)) (.error (.domain .invalidRefreshToken)) s' ∧
      NotLive s'.state 4 := by
  have hrun : ((service .sample).run (System.start (World.init 0))
      (signIn ++ serially 3 14 (.refresh (sampleRefresh 6 0)))).any (fun v =>
        ((service .sample).run v [.env (.tick 11000000)]).any (fun s =>
          ((service .sample).run s (serially 4 10 (.refresh (sampleRefresh 6 0)))).any (fun s' => decide (
            (v.state.db.refreshSessions.get 4).map (fun r => (r.generation, r.rotatedAt)) = some (1, some 0) ∧
              s.state.now = 11000000 ∧ s.threads.length = 4 ∧
              s'.threads[4]?.map (fun th => (th.req, th.code.outcome)) = some (.refresh (sampleRefresh 6 0),
                some (.error (.domain .invalidRefreshToken))))))) = true := by decide +kernel
  obtain ⟨v, hv, hrun⟩ := (Option.any_eq_true _ _).mp hrun
  obtain ⟨s, hs, hrun⟩ := (Option.any_eq_true _ _).mp hrun
  obtain ⟨s', hs', hfacts⟩ := (Option.any_eq_true _ _).mp hrun
  obtain ⟨hstored, hnow, hlen, hout⟩ := of_decide_eq_true hfacts
  obtain ⟨row, hrow, hpair⟩ := Option.map_eq_some_iff.mp hstored
  obtain ⟨hgen, hstamp⟩ := Prod.mk.inj hpair
  have hreach : Reaches .sample (System.start (World.init 0)) v := System.steps_of_run (fun _ _ => trivial) _ _ _ hv
  have hreach' : Reaches .sample v s := System.steps_of_run (fun _ _ => trivial) _ _ _ hs
  have hpast : RotatedPast .sample v.state s.state.now 4 0 := by
    refine ⟨row, hrow, by rw [hgen]; decide, .inr ⟨0, hstamp, ?_⟩⟩
    rw [hnow]
    decide
  have hreply : Replies .sample s (.refresh (sampleRefresh 6 0)) (.error (.domain .invalidRefreshToken)) s' := by
    refine System.completes_of_run (fun _ _ => trivial) (List.replicate 9 (.run 4)) ?_ ?_
    · rw [hlen]; exact hs'
    · rw [hlen]; simpa using hout
  have hdetected := refresh_reuse_detected .sample 0 v s s' (sampleRefresh 6 0) 4 0 _ hreach hreach' hpast rfl
    hreply
  exact ⟨s, s', hreach.trans hreach', hreply, (hdetected.2 (fun hrefused => hrefused)).1⟩

end FastiKit
