import FastiKit.Auth.ReuseDetection

/- Two tabs that refresh at the same moment: one of them presents a generation
   that was rotated away a moment ago, and must not lose the session for it.

   `_was_just_rotated_from` compares with the session's last rotation only, at the
   moment the request gets there. So the session is safe while the rotation that
   replaced the generation is the last one and the grace period lasts
   (`tab_race_spared`); a second rotation inside the grace period makes the first
   tab's request look like a theft (`second_rotation_revokes`). -/
namespace FastiKit

open Interleave Relational

/-- The rotation that replaced the generation came at most the grace period ago. -/
def RotatedWithin (cfg : Config) (now : Time) (s : Service) (sid : Uuid) (gen : Nat) : Prop :=
  ∃ (v : Service) (row : RefreshSession) (stamp : Time), Reaches cfg (System.start (World.init now)) v ∧
    Reaches cfg v s ∧ v.state.db.refreshSessions.get sid = some row ∧ row.generation = gen + 1 ∧
    row.rotatedAt = some stamp ∧ s.state.now ≤ stamp + cfg.reuseGrace

/-- The session is not revoked and not expired. -/
def Live (w : World) (sid : Uuid) : Prop :=
  ∃ r, w.db.refreshSessions.get sid = some r ∧ r.revokedAt = none ∧ w.now < r.expiresAt

/-- A refresh request is made in `s`; from `u` to `u'` it takes a step. -/
def RefreshStep (cfg : Config) (cookie : TokenPayload) (s u u' : Service) : Prop :=
  ∃ s₁, (service cfg).step s (.spawn (.refresh cookie)) = some s₁ ∧ Reaches cfg s₁ u ∧
    (service cfg).step u (.run s.threads.length) = some u'

/-- The rotation that replaced the generation is the session's last one, and came at
most the grace period ago. -/
def JustRotated (cfg : Config) (w : World) (sid : Uuid) (gen : Nat) : Prop :=
  ∃ row stamp, w.db.refreshSessions.get sid = some row ∧ row.generation = gen + 1 ∧
    row.rotatedAt = some stamp ∧ w.now ≤ stamp + cfg.reuseGrace

/-- A rotation that is the last one now was the last one when the row was read, if
it had happened by then. -/
theorem JustRotated.wasJustRotatedFrom {cfg : Config} {v t s : World} {sid : Uuid} {gen : Nat}
    {current : RefreshSession} (hvt : Evolves v t) (hts : Evolves t s) (hsid : sid < v.uuids)
    (hr : v.db.refreshSessions.get sid = some current) (hpast : gen < current.generation)
    (h : JustRotated cfg s sid gen) : AuthService.wasJustRotatedFrom cfg current gen t.now = true := by
  obtain ⟨row, stamp, hrow, hone, hstamp, hwithin⟩ := h
  obtain ⟨row₀, hrow₀, hp⟩ := (hvt.trans hts).db.sessions sid row hsid hrow
  rw [hr] at hrow₀
  cases hrow₀
  have hle := hp.generation
  have hsame : row.generation = current.generation := by omega
  have hread : current.rotatedAt = some stamp := by
    rw [← hp.rotatedAt hsame]
    exact hstamp
  have hone' : current.generation = gen + 1 := hsame ▸ hone
  have hgrace : t.now - stamp ≤ cfg.reuseGrace := by
    have hnow := hts.now
    unfold Time at *
    omega
  simpa [AuthService.wasJustRotatedFrom, hone', hread] using hgrace

/-- A rotate that presents a generation the session has passed takes nothing. -/
theorem rotate_past {cfg : Config} {w : World} {sid userId : Uuid} {gen : Nat} {reading : Time}
    (hgen : ∀ r, w.db.refreshSessions.get sid = some r → gen < r.generation) :
    (execOp cfg (.rotate sid userId gen reading) w).1 = .ok none ∧
      (execOp cfg (.rotate sid userId gen reading) w).2.db = w.db := by
  simp only [execOp, World.transact]
  rcases transaction_rotate cfg sid userId gen reading w.db with ⟨-, h⟩ | ⟨row, hrow, hrot, -⟩
  · rw [h]
    exact ⟨rfl, rfl⟩
  · exfalso
    have hpast := hgen row hrow
    simp only [RefreshSession.rotatable, Bool.and_eq_true, decide_eq_true_eq] at hrot
    omega

/-- What is asked of the steps of a refresh request before its last: while the
rotation is the last one, they leave the sessions alone. -/
def Spares (cfg : Config) (sid : Uuid) (gen : Nat) (_ : Op) (w w' : World) : Prop :=
  JustRotated cfg w sid gen → w'.db.refreshSessions = w.db.refreshSessions

theorem JustRotated.past {cfg : Config} {w : World} {sid : Uuid} {gen : Nat} (h : JustRotated cfg w sid gen) :
    ∀ r, w.db.refreshSessions.get sid = some r → gen < r.generation := by
  intro r hr
  obtain ⟨row, stamp, hrow, hone, -⟩ := h
  rw [hr] at hrow
  cases hrow
  omega

theorem askable_spares (cfg : Config) (cookie : TokenPayload) (sid : Uuid) (gen : Nat) :
    Askable cfg cookie sid gen (Spares cfg sid gen) := by
  constructor
  · intro op w hq _
    rw [hq.db]
  · intro reading w _ hjust
    rw [(rotate_past hjust.past).2]

/-- How a refresh request of a tab race ends: its last step leaves the sessions
alone, and it is a conflict unless it was refused before or the session has died. -/
theorem RefreshEnds.spared {cfg : Config} {cookie : TokenPayload} {sid : Uuid} {gen : Nat} {w : World}
    {out : Except Err Response} {op : Op} {s s' : World} (h : RefreshEnds cfg cookie sid gen w out op s s')
    (hsid : sid < w.uuids) (hgen : ∀ r, w.db.refreshSessions.get sid = some r → gen < r.generation)
    (hjust : JustRotated cfg s sid gen) :
    s'.db.refreshSessions = s.db.refreshSessions ∧
      ((∃ detail, out = .error (.domain (.conflict detail))) ∨ Refused out ∨ NotLive s' sid) := by
  cases h with
  | refused hq =>
    rw [hq.db]
    exact ⟨rfl, .inr (.inl trivial)⟩
  | inactive => exact ⟨rfl, .inr (.inl trivial)⟩
  | @rotated user session reading s hws hread hr =>
    rw [(rotate_past hjust.past).1] at hr
    cases hr
  | gone hws hr =>
    refine ⟨rfl, .inr (.inr ?_)⟩
    intro r hr'
    rw [hr] at hr'
    cases hr'
  | @dead current v s hwv hvs hr hown hdead =>
    exact ⟨rfl, .inr (.inr (.of_dead hvs (Nat.lt_of_lt_of_le hsid hwv.uuids) hr hown hdead))⟩
  | conflict => exact ⟨rfl, .inl ⟨_, rfl⟩⟩
  | @reused current v t s hwv hvt hts hr hlate =>
    -- the row it read is the one that is there now, and the clock has not gone further
    exfalso
    have hpast := hwv.session hsid (fun _ _ hp hlt => Nat.lt_of_lt_of_le hlt hp.generation) hgen current hr
    rw [hjust.wasJustRotatedFrom hvt hts (Nat.lt_of_lt_of_le hsid hwv.uuids) hr hpast] at hlate
    cases hlate

/-- A tab race does not log the user out: a refresh request that presents a
generation rotated away before it was made leaves the sessions alone with every step
it takes while that rotation is the session's last one and at most the grace period
old, and if it is answered by the step, then with the conflict, unless it was refused
at the token or the user check or the session has died. -/
theorem tab_race_spared (cfg : Config) (now : Time) (s u u' : Service) (cookie : TokenPayload) (sid : Uuid)
    (gen : Nat) (hs : Reaches cfg (System.start (World.init now)) s)
    (hwithin : RotatedWithin cfg now s sid gen) (hses : cookie.session = some (sid, gen))
    (hstep : RefreshStep cfg cookie s u u') (hjust : JustRotated cfg u.state sid gen) :
    u'.state.db.refreshSessions = u.state.db.refreshSessions ∧
      ∀ out, u'.Finished s.threads.length (.refresh cookie) out →
        (∃ detail, out = .error (.domain (.conflict detail))) ∨ Refused out ∨ NotLive u'.state sid := by
  obtain ⟨s₁, hspawn, hu, hrun⟩ := hstep
  have hok := served_steps hs (served_start now)
  have hissued : s.state.issued cookie = true := by
    have hacc := (System.step_spawn hspawn).1
    simpa [service, World.accepts, Request.tokens] using hacc
  obtain ⟨v, row, stamp, hv, hvs, hrow, hone, -⟩ := hwithin
  have hokv := served_steps hv (served_start now)
  have hev := steps_evolves hvs hokv
  have hsid : sid < v.state.uuids := hokv.2.1.sessions sid row hrow
  have hgen : ∀ r, s.state.db.refreshSessions.get sid = some r → gen < r.generation := by
    refine hev.session hsid (fun _ _ hp hlt => Nat.lt_of_lt_of_le hlt hp.generation) ?_
    intro r hr
    rw [hrow] at hr
    cases hr
    omega
  -- the request is watched from its first step on
  have hready : Ready ((regime cfg).watch (Spares cfg sid gen)) (execOp cfg)
      (RefreshEnds cfg cookie sid gen s.state) (serve cfg (.refresh cookie)) s.state :=
    ready_refreshEnds (askable_spares cfg cookie sid gen) hses hok.2.1 hissued
  have hsound := service_sound cfg (fun _ _ => True)
  obtain ⟨hlt, hw⟩ := watch_spawn (K := fun _ => RefreshEnds cfg cookie sid gen s.state)
    (fun op => hsound.refl op _ hok.2.1) hspawn hready
  have hok₁ := hsound.step hok trivial hspawn
  have hwu := hsound.watch_steps hok₁ hu hlt hw
  have hoku := served_steps hu hok₁
  obtain ⟨-, op, hwait, ⟨hspares, hno⟩ | ⟨req, out, hfin, hends, hstate⟩⟩ := hsound.watch_own hoku trivial hrun hwu
  · exact ⟨hspares hjust, fun out hout => absurd hout (hno _ out)⟩
  · obtain ⟨hsame, hanswer⟩ := hends.spared (Nat.lt_of_lt_of_le hsid hev.uuids) hgen hjust
    obtain ⟨hdb, hnow, -⟩ := (execOp cfg op u.state).2.respond_db cfg req out
    have hstate : u'.state = (execOp cfg op u.state).2.respond cfg req out := hstate
    refine ⟨?_, ?_⟩
    · rw [hstate, hdb]
      exact hsame
    · intro out' hout'
      obtain ⟨-, rfl⟩ := finished_unique hfin hout'
      refine hanswer.imp id (Or.imp id ?_)
      intro hdead r hr
      rw [hstate, hdb] at hr
      rw [hstate, hnow]
      exact hdead r hr

/-- One tab refreshes; a second later the other tab presents the same cookie. -/
theorem tab_race_spared_sample : ∃ s u u' : Service, RefreshStep .sample (sampleRefresh 6 0) s u u' ∧
    u'.Finished s.threads.length (.refresh (sampleRefresh 6 0)) (.error (.domain (.conflict
      "Refresh token was just rotated; retry with the latest cookie"))) ∧
    u'.state.db.refreshSessions = u.state.db.refreshSessions := by
  have hrun : ((service .sample).run (System.start (World.init 0))
      (signIn ++ serially 3 14 (.refresh (sampleRefresh 6 0)))).any (fun v =>
        ((service .sample).run v [.env (.tick 1000000)]).any (fun s =>
          ((service .sample).step s (.spawn (.refresh (sampleRefresh 6 0)))).any (fun s₁ =>
            ((service .sample).run s₁ (List.replicate 8 (.run 4))).any (fun u =>
              ((service .sample).step u (.run 4)).any (fun u' => decide (
                (v.state.db.refreshSessions.get 4).map (fun r => (r.generation, r.rotatedAt)) = some (1, some 0) ∧
                (u.state.db.refreshSessions.get 4).map (fun r => (r.generation, r.rotatedAt)) = some (1, some 0) ∧
                s.state.now = 1000000 ∧ u.state.now = 1000000 ∧ s.threads.length = 4 ∧
                u'.threads[4]?.map (fun th => (th.req, th.code.outcome)) = some (.refresh (sampleRefresh 6 0),
                  some (.error (.domain (.conflict
                    "Refresh token was just rotated; retry with the latest cookie")))))))))) = true := by
    decide +kernel
  obtain ⟨v, hv, hrun⟩ := (Option.any_eq_true _ _).mp hrun
  obtain ⟨s, hs, hrun⟩ := (Option.any_eq_true _ _).mp hrun
  obtain ⟨s₁, hs₁, hrun⟩ := (Option.any_eq_true _ _).mp hrun
  obtain ⟨u, hu, hrun⟩ := (Option.any_eq_true _ _).mp hrun
  obtain ⟨u', hu', hfacts⟩ := (Option.any_eq_true _ _).mp hrun
  obtain ⟨hrowv, hrowu, hnows, hnowu, hlen, hout⟩ := of_decide_eq_true hfacts
  have hreach : Reaches .sample (System.start (World.init 0)) v := System.steps_of_run (fun _ _ => trivial) _ _ _ hv
  have hreach' : Reaches .sample v s := System.steps_of_run (fun _ _ => trivial) _ _ _ hs
  obtain ⟨row, hrow, hpair⟩ := Option.map_eq_some_iff.mp hrowv
  obtain ⟨rowu, hrowu, hpairu⟩ := Option.map_eq_some_iff.mp hrowu
  have hwithin : RotatedWithin .sample 0 s 4 0 := by
    refine ⟨v, row, 0, hreach, hreach', hrow, (Prod.mk.inj hpair).1, (Prod.mk.inj hpair).2, ?_⟩
    rw [hnows]
    decide
  have hjust : JustRotated .sample u.state 4 0 := by
    refine ⟨rowu, 0, hrowu, (Prod.mk.inj hpairu).1, (Prod.mk.inj hpairu).2, ?_⟩
    rw [hnowu]
    decide
  have hstep : RefreshStep .sample (sampleRefresh 6 0) s u u' :=
    ⟨s₁, hs₁, System.steps_of_run (fun _ _ => trivial) _ _ _ hu, by rw [hlen]; exact hu'⟩
  obtain ⟨th, hth, hfin⟩ := Option.map_eq_some_iff.mp hout
  obtain ⟨hreq, hcode⟩ := Prod.mk.inj hfin
  have hspared := tab_race_spared .sample 0 s u u' (sampleRefresh 6 0) 4 0 (hreach.trans hreach') hwithin rfl
    hstep hjust
  exact ⟨s, u, u', hstep, ⟨th, by rw [hlen]; exact hth, hreq, hcode⟩, hspared.1⟩

/-- Two tabs refresh one after the other within a second, and a third request
presents the first cookie: its last step revokes the session. -/
theorem second_rotation_revokes : ¬ ∀ (cfg : Config) (now : Time) (s u u' : Service) (cookie : TokenPayload)
    (sid : Uuid) (gen : Nat), Reaches cfg (System.start (World.init now)) s → RotatedWithin cfg now s sid gen →
    Live s.state sid → cookie.session = some (sid, gen) → RefreshStep cfg cookie s u u' →
    u'.state.db.refreshSessions = u.state.db.refreshSessions := by
  intro h
  have hrun : ((service .sample).run (System.start (World.init 0))
      (signIn ++ serially 3 14 (.refresh (sampleRefresh 6 0)))).any (fun v =>
        ((service .sample).run v (.env (.tick 1000000) :: serially 4 6 (.refresh (sampleRefresh 8 1)))).any (fun s =>
          ((service .sample).step s (.spawn (.refresh (sampleRefresh 6 0)))).any (fun s₁ =>
            ((service .sample).run s₁ (List.replicate 9 (.run 5))).any (fun u =>
              ((service .sample).step u (.run 5)).any (fun u' => decide (
                (v.state.db.refreshSessions.get 4).map (fun r => (r.generation, r.rotatedAt)) = some (1, some 0) ∧
                (s.state.db.refreshSessions.get 4).map (fun r => (r.generation, r.revokedAt, r.expiresAt)) =
                  some (2, none, 1728000000000) ∧
                s.state.now = 1000000 ∧ s.threads.length = 5 ∧
                (u.state.db.refreshSessions.get 4).map (·.revokedAt) = some none ∧
                (u'.state.db.refreshSessions.get 4).map (·.revokedAt) = some (some 1000000))))))) = true := by
    decide +kernel
  obtain ⟨v, hv, hrun⟩ := (Option.any_eq_true _ _).mp hrun
  obtain ⟨s, hs, hrun⟩ := (Option.any_eq_true _ _).mp hrun
  obtain ⟨s₁, hs₁, hrun⟩ := (Option.any_eq_true _ _).mp hrun
  obtain ⟨u, hu, hrun⟩ := (Option.any_eq_true _ _).mp hrun
  obtain ⟨u', hu', hfacts⟩ := (Option.any_eq_true _ _).mp hrun
  obtain ⟨hrowv, hrows, hnow, hlen, hbefore, hafter⟩ := of_decide_eq_true hfacts
  have hreach : Reaches .sample (System.start (World.init 0)) v := System.steps_of_run (fun _ _ => trivial) _ _ _ hv
  have hreach' : Reaches .sample v s := System.steps_of_run (fun _ _ => trivial) _ _ _ hs
  obtain ⟨row, hrow, hpair⟩ := Option.map_eq_some_iff.mp hrowv
  obtain ⟨rows, hrows, htriple⟩ := Option.map_eq_some_iff.mp hrows
  have hwithin : RotatedWithin .sample 0 s 4 0 := by
    refine ⟨v, row, 0, hreach, hreach', hrow, (Prod.mk.inj hpair).1, (Prod.mk.inj hpair).2, ?_⟩
    rw [hnow]
    decide
  have hlive : Live s.state 4 := by
    obtain ⟨-, hpair⟩ := Prod.mk.inj htriple
    refine ⟨rows, hrows, (Prod.mk.inj hpair).1, ?_⟩
    rw [(Prod.mk.inj hpair).2, hnow]
    decide
  have hsame := h .sample 0 s u u' (sampleRefresh 6 0) 4 0 (hreach.trans hreach') hwithin hlive rfl
    ⟨s₁, hs₁, System.steps_of_run (fun _ _ => trivial) _ _ _ hu, by rw [hlen]; exact hu'⟩
  rw [hsame, hbefore] at hafter
  cases hafter

end FastiKit
