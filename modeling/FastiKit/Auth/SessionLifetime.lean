import FastiKit.Auth.ReuseDetection
import FastiKit.Auth.Calls
import FastiKit.Auth.Pipelines

/- How long a refresh session lives. A login reads the clock and opens its session
   for `session_ttl` from that reading; `readings` follows a request's last reading
   up to the insert. From then on the expiry is fixed: no operation moves it in the
   row, and every refresh token signed for the session carries it (`FixedExpiry`).
   A session that is over stays over: no later reading of the clock rotates it, and
   the moment of its first revocation is kept (`session_death_final`). -/
namespace FastiKit

open Interleave Relational

/-- The last clock reading of a request. A session is opened for its lifetime from
that reading. -/
def readings (cfg : Config) : Monitor Op Op.Res (Option Time) where
  start := none
  allows read op := ∀ user expiresAt, op = .createSession user expiresAt →
    ∃ reading, read = some reading ∧ expiresAt = reading + cfg.sessionTtl
  next read op r := op.readAfter r read

/-- Everyone but a login opens no session. -/
theorem readings_calls (cfg : Config) {req : Request} (hreq : ∀ email password, req ≠ .login email password)
    (read : Option Time) : (readings cfg).Follows (fun _ _ => True) (serve cfg req) read := by
  refine Monitor.follows_of_uses ?_ (serve_calls cfg req) read
  intro op hop m user expiresAt heq
  subst heq
  cases req <;> first | exact absurd rfl (hreq _ _) | cases hop

theorem serve_follows_readings (cfg : Config) (req : Request) :
    (readings cfg).Follows (fun _ _ => True) (serve cfg req) (readings cfg).start := by
  cases req with
  | login email password =>
    refine ⟨nofun, ?_⟩
    intro user
    cases user with
    | none => trivial
    | some user =>
      show (readings cfg).Follows _ (Prog.bind (Prog.bind (ite _ _ _) _) _) _
      split
      · trivial
      · refine ⟨nofun, fun now => ⟨?_, ?_⟩⟩
        · intro user' expiresAt heq
          cases heq
          exact ⟨now, rfl, rfl⟩
        · intro r
          cases r <;> trivial
  | _ =>
    apply readings_calls
    intro email password heq
    cases heq

/-- The session was opened by a login that had read the clock at `reading`. -/
inductive LoggedIn (cfg : Config) (now : Time) (s : Service) (sid : Uuid) (reading : Time) : Prop where
  | intro {v v' u u' : Service} {i : Nat} {email password : String} {user : User} {session : RefreshSession}
      (before : Reaches cfg (System.start (World.init now)) v)
      (reads : (service cfg).Fires v i .clock reading) (read : (service cfg).step v (.run i) = some v')
      (between : Reaches cfg v' u)
      (opens : (service cfg).Fires u i (.createSession user (reading + cfg.sessionTtl)) (.ok session))
      (opened : (service cfg).step u (.run i) = some u')
      (answered : (Request.login email password, Except.ok (Response.tokens user session)) ∈ u'.state.responses)
      (id : session.id = sid) (after : Reaches cfg u' s)

/-- Whatever is signed and stored for the session carries the expiry. -/
structure FixedExpiry (w : World) (sid : Uuid) (expiresAt : Time) : Prop where
  known : sid < w.uuids
  rows : ∀ row, w.db.refreshSessions.get sid = some row → row.expiresAt = expiresAt
  cookies : ∀ p ∈ w.signed, ∀ gen, p.session = some (sid, gen) → p.exp = encodeExp expiresAt

/-! One step. -/

/-- A refresh token is signed with the expiry of the session in the response. -/
theorem World.exp_respond {cfg : Config} {req : Request} {out : Except Err Response} {w : World}
    {p : TokenPayload} (hp : p ∈ (w.respond cfg req out).signed) :
    p ∈ w.signed ∨ ∃ user session, out = .ok (.tokens user session) ∧
      ∀ sid gen, p.session = some (sid, gen) → session.id = sid ∧ p.exp = encodeExp session.expiresAt := by
  unfold respond at hp
  split at hp
  · next user session =>
    simp only [sign, List.mem_cons] at hp
    rcases hp with rfl | rfl | hp
    · refine .inr ⟨user, session, rfl, ?_⟩
      intro sid gen hses
      cases hses
      exact ⟨rfl, rfl⟩
    · exact .inr ⟨user, session, rfl, fun sid gen h => by cases h⟩
    · exact .inl hp
  · exact .inl hp

/-- Where a refresh token comes from: it was there, or it is signed for the session
that this step has just stored. -/
theorem Guarantee.cookie {cfg : Config} {op : Op} {w w' : World} (hg : Guarantee cfg op w w')
    {p : TokenPayload} (hp : p ∈ w'.signed) {sid : Uuid} {gen : Nat} (hses : p.session = some (sid, gen)) :
    p ∈ w.signed ∨ ∃ req user session, Answers req (.ok (.tokens user session)) op (execOp cfg op w).1 ∧
      (req, Except.ok (Response.tokens user session)) ∈ w'.responses ∧ session.id = sid ∧
      p.exp = encodeExp session.expiresAt ∧ w'.db.refreshSessions.get sid = some session := by
  obtain ⟨-, hsigned, -⟩ := execOp_frame cfg op w
  obtain ⟨-, ⟨rfl, -⟩ | ⟨req, out, rfl, ha⟩⟩ := hg
  · rw [hsigned] at hp
    exact .inl hp
  · obtain ⟨hdb, -, -, hresponses, -⟩ := (execOp cfg op w).2.respond_db cfg req out
    rcases World.exp_respond hp with hold | ⟨user, session, rfl, hnew⟩
    · rw [hsigned] at hold
      exact .inl hold
    · obtain ⟨rfl, hexp⟩ := hnew sid gen hses
      refine .inr ⟨req, user, session, ha, ?_, rfl, hexp, ?_⟩
      · rw [hresponses]
        exact List.mem_cons_self
      · rw [hdb]
        exact (ha.session (execOp_effect cfg op w)).1

theorem FixedExpiry.guarantee {cfg : Config} {op : Op} {w w' : World} {sid : Uuid} {expiresAt : Time}
    (h : FixedExpiry w sid expiresAt) (hg : Guarantee cfg op w w') : FixedExpiry w' sid expiresAt := by
  have hrows : ∀ row, w'.db.refreshSessions.get sid = some row → row.expiresAt = expiresAt :=
    hg.evolves.session h.known (fun r r' hp hr => hp.expiresAt.trans hr) h.rows
  refine ⟨Nat.lt_of_lt_of_le h.known hg.evolves.uuids, hrows, ?_⟩
  intro p hp gen hses
  rcases hg.cookie hp hses with hold | ⟨req, user, session, -, -, -, hexp, hrow⟩
  · exact h.cookies p hold gen hses
  · rw [hexp, hrows session hrow]

/-- A new session starts with the expiry its login gave it. -/
theorem FixedExpiry.opened {cfg : Config} {user : User} {expiresAt : Time} {w w' : World}
    {session : RefreshSession} (hs : Sane w) (hg : Guarantee cfg (.createSession user expiresAt) w w')
    (hr : (execOp cfg (.createSession user expiresAt) w).1 = .ok session) :
    FixedExpiry w' session.id expiresAt := by
  have heff := execOp_effect cfg (.createSession user expiresAt) w
  rw [hr, ← hg.db] at heff
  obtain ⟨hnew, sessions, hi, hdb⟩ := heff.of_createSession
  have hid : session.id = w.uuids := by rw [hnew]; rfl
  have hrow : w'.db.refreshSessions.get session.id = some session := by
    rw [hdb, Table.get_insert hi]
    exact if_pos rfl
  have hexpires : session.expiresAt = expiresAt := by rw [hnew]; rfl
  refine ⟨(hg.sane hs).sessions _ session hrow, ?_, ?_⟩
  · intro row hget
    rw [hrow] at hget
    cases hget
    exact hexpires
  · intro p hp gen hses
    rcases hg.cookie hp hses with hold | ⟨req, user', session', -, -, -, hexp, hget⟩
    · -- no token names a session that has not been given out
      have hlt := ((hs.signed p hold).2 _ gen hses).1
      rw [hid] at hlt
      exact absurd hlt (Nat.lt_irrefl _)
    · rw [hrow] at hget
      cases hget
      rw [hexp, hexpires]

theorem FixedExpiry.event {e : Event} {w w' : World} {sid : Uuid} {expiresAt : Time}
    (h : FixedExpiry w sid expiresAt) (he : w.event e = some w') : FixedExpiry w' sid expiresAt := by
  obtain ⟨hdb, huuids, hsigned, -⟩ := World.event_frame he
  refine ⟨?_, ?_, ?_⟩
  · rw [huuids]
    exact h.known
  · rw [hdb]
    exact h.rows
  · rw [hsigned]
    exact h.cookies

/-! Runs. -/

section Runs
variable {cfg : Config} {now : Time} {s s' : Service}

theorem LoggedIn.later {sid : Uuid} {reading : Time} (h : LoggedIn cfg now s sid reading)
    (ht : Reaches cfg s s') : LoggedIn cfg now s' sid reading := by
  obtain ⟨before, reads, read, between, opens, opened, answered, id, after⟩ := h
  exact ⟨before, reads, read, between, opens, opened, answered, id, after.trans ht⟩

/-- The request's last reading of the clock, in the run so far. -/
def ReadClock (cfg : Config) (now : Time) (s : Service) (i : Nat) (reading : Time) : Prop :=
  ∃ v v', Reaches cfg (System.start (World.init now)) v ∧ (service cfg).Fires v i .clock reading ∧
    (service cfg).step v (.run i) = some v' ∧ Reaches cfg v' s

/-- Every request's last reading is one it took, and every refresh token's session was
opened by a login, for its lifetime from the login's reading. -/
structure Lifetimes (cfg : Config) (now : Time) (m : Nat → Option Time) (s : Service) : Prop where
  reached : Reaches cfg (System.start (World.init now)) s
  watches : (readings cfg).Watches s m
  read : ∀ i reading, m i = some reading → ReadClock cfg now s i reading
  opened : ∀ p ∈ s.state.signed, ∀ sid gen, p.session = some (sid, gen) →
    ∃ reading, LoggedIn cfg now s sid reading ∧ FixedExpiry s.state sid (reading + cfg.sessionTtl)

theorem lifetimes_start (now : Time) :
    Lifetimes cfg now (fun _ => none) (System.start (World.init now)) := by
  refine ⟨.refl, Monitor.watches_start _ _, ?_, ?_⟩
  · intro i reading h
    cases h
  · intro p hp
    cases hp

theorem Lifetimes.served {m : Nat → Option Time} (h : Lifetimes cfg now m s) : Served.Pool cfg s :=
  served_steps h.reached (served_start now)

/-- The readings after a step. -/
theorem Lifetimes.read_step {m : Nat → Option Time} (h : Lifetimes cfg now m s) {a : Action Request Event}
    (ha : (service cfg).step s a = some s') (i : Nat) (reading : Time)
    (hread : (readings cfg).advance (service cfg) s m a i = some reading) :
    ReadClock cfg now s' i reading := by
  have hold : m i = some reading → ReadClock cfg now s' i reading := by
    intro hm
    obtain ⟨v, v', hv, hf, hstep, hafter⟩ := h.read i reading hm
    exact ⟨v, v', hv, hf, hstep, hafter.snoc trivial ha⟩
  cases a with
  | spawn req =>
    rw [Monitor.advance_spawn, Function.update_apply] at hread
    split at hread
    · cases hread
    · exact hold hread
  | run j =>
    obtain ⟨req, op, k, hj, -⟩ := System.step_run ha
    have hw : s.Waits j op := ⟨_, hj, rfl, rfl⟩
    rw [Monitor.advance_run hw, Function.update_apply] at hread
    split at hread
    · next hij =>
      subst hij
      cases op with
      | clock => exact ⟨s, s', h.reached, ⟨hw, Option.some.inj hread⟩, ha, .refl⟩
      | _ => exact hold hread
    · exact hold hread
  | cancel j => exact hold hread
  | env e => exact hold hread

/-- The session of a token that a step signs. -/
theorem Lifetimes.opened_run {m : Nat → Option Time} (h : Lifetimes cfg now m s) {i : Nat} {op : Op}
    (hw : s.Waits i op) (ha : (service cfg).step s (.run i) = some s') (p : TokenPayload)
    (hp : p ∈ s'.state.signed) (sid : Uuid) (gen : Nat) (hses : p.session = some (sid, gen)) :
    ∃ reading, LoggedIn cfg now s' sid reading ∧ FixedExpiry s'.state sid (reading + cfg.sessionTtl) := by
  have hg := run_guarantee h.served hw ha
  have hold : ∀ q ∈ s.state.signed, ∀ gen', q.session = some (sid, gen') →
      ∃ reading, LoggedIn cfg now s' sid reading ∧ FixedExpiry s'.state sid (reading + cfg.sessionTtl) := by
    intro q hq gen' hqses
    obtain ⟨reading, hlogin, hfixed⟩ := h.opened q hq sid gen' hqses
    exact ⟨reading, hlogin.later (.single ⟨_, trivial, ha⟩), hfixed.guarantee hg⟩
  rcases hg.cookie hp hses with hmem | ⟨req, user, session, hanswers, hresponse, rfl, -, hrow⟩
  · exact hold p hmem gen hses
  · generalize hr : (execOp cfg op s.state).1 = r at hanswers
    cases hanswers with
    | @login email password _ _ expiresAt =>
      obtain ⟨reading, hread, rfl⟩ := h.watches.allows hw user expiresAt rfl
      obtain ⟨v, v', hv, hf, hstep, hafter⟩ := h.read i reading hread
      exact ⟨reading, ⟨hv, hf, hstep, hafter, ⟨hw, hr⟩, ha, hresponse, rfl, .refl⟩,
        FixedExpiry.opened h.served.2.1 hg hr⟩
    | @refresh cookie _ _ sid gen' clock hcookie huser =>
      -- the rotated row is the one the presented token names
      obtain ⟨-, q, hq, hqses, -⟩ := hg.1
      have heff := execOp_effect cfg (.rotate sid cookie.sub gen' clock) s.state
      rw [hr] at heff
      obtain ⟨row, hget, -, rfl, -⟩ := heff.of_rotate
      rw [RefreshSession.rotated_id, Table.get_key hget] at hold ⊢
      exact hold q hq gen' hqses
    | rest hop hout => exact absurd rfl ((hout _ rfl).2 user session)

theorem Lifetimes.step {m : Nat → Option Time} (h : Lifetimes cfg now m s) {a : Action Request Event}
    (ha : (service cfg).step s a = some s') :
    Lifetimes cfg now ((readings cfg).advance (service cfg) s m a) s' := by
  refine ⟨h.reached.snoc trivial ha, h.watches.step (serve_follows_readings cfg) ha, h.read_step ha, ?_⟩
  intro p hp sid gen hses
  have hkeep : s'.state.signed = s.state.signed →
      (∀ reading, FixedExpiry s.state sid reading → FixedExpiry s'.state sid reading) →
      ∃ reading, LoggedIn cfg now s' sid reading ∧ FixedExpiry s'.state sid (reading + cfg.sessionTtl) := by
    intro hsigned hfix
    rw [hsigned] at hp
    obtain ⟨reading, hlogin, hfixed⟩ := h.opened p hp sid gen hses
    exact ⟨reading, hlogin.later (.single ⟨_, trivial, ha⟩), hfix _ hfixed⟩
  rcases step_world h.served ha with ⟨-, -, hstate⟩ | ⟨i, op, rfl, hw, -⟩ | ⟨e, rfl, he⟩
  · apply hkeep
    · rw [hstate]
    · rw [hstate]
      exact fun _ hfixed => hfixed
  · exact h.opened_run hw ha p hp sid gen hses
  · apply hkeep
    · exact (World.event_frame he).2.2.1
    · exact fun _ hfixed => hfixed.event he

theorem lifetimes_steps (h : Reaches cfg (System.start (World.init now)) s) :
    ∃ m, Lifetimes cfg now m s := by
  refine h.invariant (J := fun v => ∃ m, Lifetimes cfg now m v) ?_ ⟨_, lifetimes_start now⟩
  intro v a v' hv _ ha
  obtain ⟨m, hm⟩ := hv
  exact ⟨_, hm.step ha⟩

theorem fixedExpiry_steps (hs : Served.Pool cfg s) (h : Reaches cfg s s') {sid : Uuid} {expiresAt : Time}
    (hfixed : FixedExpiry s.state sid expiresAt) : FixedExpiry s'.state sid expiresAt := by
  refine run_invariant (P := fun w => FixedExpiry w sid expiresAt) ?_ ?_ h hs hfixed
  · intro v i op w' _ hP _ _ hg
    exact hP.guarantee hg
  · intro v e w' _ hP _ he
    exact hP.event he

end Runs

/-- The end of a session is final, and no session outlives its login by more than the
lifetime it was given: a session that is revoked or expired is not live again, keeps the
moment it was revoked, and is not rotated by a request that reads the clock from then on;
and every refresh token of a session carries the expiry that its login fixed, as its row
does. -/
theorem session_death_final (cfg : Config) (now : Time) (s : Service)
    (h : Reaches cfg (System.start (World.init now)) s) :
    (∀ sid row, s.state.db.refreshSessions.get sid = some row →
      (row.revokedAt.isSome = true ∨ row.expiresAt ≤ s.state.now) → ∀ t, Reaches cfg s t →
        NotLive t.state sid ∧
        (∀ row' revokedAt, t.state.db.refreshSessions.get sid = some row' → row.revokedAt = some revokedAt →
          row'.revokedAt = some revokedAt) ∧
        ∀ i presenter gen reading session, s.state.now ≤ reading →
          ¬ (service cfg).Fires t i (.rotate sid presenter gen reading) (.ok (some session))) ∧
    ∀ p ∈ s.state.signed, ∀ sid gen, p.session = some (sid, gen) →
      ∃ reading, LoggedIn cfg now s sid reading ∧ ∀ t, Reaches cfg s t →
        (∀ row, t.state.db.refreshSessions.get sid = some row → row.expiresAt = reading + cfg.sessionTtl) ∧
        ∀ q ∈ t.state.signed, ∀ gen', q.session = some (sid, gen') →
          q.exp = encodeExp (reading + cfg.sessionTtl) := by
  have hserved := served_steps h (served_start now)
  refine ⟨?_, ?_⟩
  · intro sid row hrow hover t ht
    have hsid := hserved.2.1.sessions sid row hrow
    have hev := steps_evolves ht hserved
    have hnot : NotLive s.state sid := by
      intro row' hrow'
      rw [hrow] at hrow'
      cases hrow'
      exact hover
    refine ⟨?_, ?_, ?_⟩
    · apply NotLive.of_precedes hev.now
      intro row' hrow'
      obtain ⟨row₀, hrow₀, hp⟩ := hev.db.sessions sid row' hsid hrow'
      exact ⟨row₀, hp, hnot row₀ hrow₀⟩
    · intro row' revokedAt hrow' hrevoked
      obtain ⟨row₀, hrow₀, hp⟩ := hev.db.sessions sid row' hsid hrow'
      rw [hrow] at hrow₀
      cases hrow₀
      rw [hp.revokedAt (by rw [hrevoked]; rfl), hrevoked]
    · intro i presenter gen reading session hreading hf
      obtain ⟨hlt, hle⟩ := hnot.rotate hsid hev hf.2
      exact absurd (Int.lt_of_le_of_lt hreading hlt) (Int.not_lt.mpr hle)
  · intro p hp sid gen hses
    obtain ⟨m, hm⟩ := lifetimes_steps h
    obtain ⟨reading, hlogin, hfixed⟩ := hm.opened p hp sid gen hses
    refine ⟨reading, hlogin, ?_⟩
    intro t ht
    have hlater := fixedExpiry_steps hserved ht hfixed
    exact ⟨hlater.rows, hlater.cookies⟩

/-- A session expires between a refresh's token check and its reading of the clock. -/
theorem session_death_final_sample : ∃ s t, Reaches .sample (System.start (World.init 0)) s ∧ Reaches .sample s t ∧
    t.Waits 3 (.rotate 4 0 0 1728000000000) ∧
    (∀ session, ¬ (service .sample).Fires t 3 (.rotate 4 0 0 1728000000000) (.ok (some session))) ∧
    ∃ reading, LoggedIn .sample 0 s 4 reading ∧ (sampleRefresh 6 0).exp = encodeExp (reading + Config.sample.sessionTtl) := by
  have hrun : ((service .sample).run (System.start (World.init 0))
      (signIn ++ [.env (.tick 1727999000000)] ++ serially 3 11 (.refresh (sampleRefresh 6 0)) ++
        [.env (.tick 1000000)])).any (fun s => ((service .sample).run s [.run 3]).any (fun t => decide (
          s.state.db.refreshSessions.get 4 = some (newSession 4 0 1728000000000) ∧
            s.state.now = 1728000000000 ∧ sampleRefresh 6 0 ∈ s.state.signed ∧
            t.pending 3 = some (.rotate 4 0 0 1728000000000)))) = true := by decide +kernel
  obtain ⟨s, hs, hrun⟩ := (Option.any_eq_true _ _).mp hrun
  obtain ⟨t, ht, hfacts⟩ := (Option.any_eq_true _ _).mp hrun
  obtain ⟨hrow, hnow, hsigned, hop⟩ := of_decide_eq_true hfacts
  have hreach : Reaches .sample (System.start (World.init 0)) s := System.steps_of_run (fun _ _ => trivial) _ _ _ hs
  have hreach' : Reaches .sample s t := System.steps_of_run (fun _ _ => trivial) _ _ _ ht
  obtain ⟨hfinal, hexpiry⟩ := session_death_final .sample 0 s hreach
  obtain ⟨-, -, hnever⟩ := hfinal 4 _ hrow (.inr (Int.le_of_eq hnow.symm)) t hreach'
  obtain ⟨reading, hlogin, hfixed⟩ := hexpiry _ hsigned 4 0 rfl
  refine ⟨s, t, hreach, hreach', Pool.waits_of_pending hop, ?_, reading, hlogin, ?_⟩
  · intro session
    exact hnever 3 0 0 _ session (Int.le_of_eq hnow)
  · exact (hfixed s .refl).2 _ hsigned 0 rfl

end FastiKit
