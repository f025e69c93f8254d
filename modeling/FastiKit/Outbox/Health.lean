import FastiKit.Outbox.Delivery
import FastiKit.Outbox.HandOver
import FastiKit.Outbox.Site

/- What an answer of `/health/workers` says about the outbox: a check that returns saw
   the site as it should be at some moment since the request came, and one that
   raises of itself saw the contrary. Of the query and the clock, the two moments the
   backlog check sees, the clock is the later one: a row is never older at the query
   than by the clock, so what is allowed then was allowed at the query. -/
namespace FastiKit

open Interleave Relational KeyValue

namespace Outbox
variable {π : Type}

/-! The rows: a parked one has used up its attempts. -/

/-- Only a row with no attempts left is parked. -/
def Parked (cfg : OutboxSettings) (row : OutboxEvent π) : Prop :=
  row.failedAt.isSome = true → cfg.outboxMaxAttempts ≤ row.attempts

theorem Tried.parked {cfg : OutboxSettings} {row row' : OutboxEvent π} (h : Tried cfg row row')
    (hrow : Parked cfg row) : Parked cfg row' := by
  obtain ⟨now, rfl | ⟨err, rfl⟩⟩ := h
  · exact hrow
  · intro hfailed
    simp only [OutboxEvent.attemptFailed] at hfailed ⊢
    split at hfailed
    · next hmax => exact hmax
    · have := hrow hfailed
      omega

theorem parked_flushInto {cfg : OutboxSettings} {rows : List (OutboxEvent π)} {old : OutboxEvent π}
    (hrows : ∀ row ∈ rows, Parked cfg row) (hold : Parked cfg old) : Parked cfg (flushInto rows old) := by
  unfold flushInto
  cases hchanged : changed rows old.id with
  | none => exact hold
  | some row => exact hrows row (mem_of_changed hchanged).1

/-- The rows of the sessions and of the table. -/
structure Parks (cfg : OutboxSettings) (s : State π) : Prop where
  sessions : ∀ session ∈ s.sessions, ∀ row ∈ session.rows, Parked cfg row
  rows : ∀ row ∈ s.events.rows, Parked cfg row

theorem Parks.put {cfg : OutboxSettings} {s s' : State π} (hs : Parks cfg s) {i : Nat} {session : Session π}
    (hsession : ∀ row ∈ session.rows, Parked cfg row) (hsessions : s'.sessions = s.sessions.set i session)
    (hrows : ∀ row ∈ s'.events.rows, Parked cfg row) : Parks cfg s' := by
  refine ⟨?_, hrows⟩
  intro session' hmem
  rw [hsessions] at hmem
  rcases List.mem_or_eq_of_mem_set hmem with hold | rfl
  · exact hs.sessions session' hold
  · exact hsession

theorem Parks.step {cfg : OutboxSettings} {s s' : State π} {a : Action π} (hs : Parks cfg s)
    (ha : (machine cfg).step s a = some s') : Parks cfg s' := by
  have hnone : ∀ session : Session π, session.rows = [] → ∀ row ∈ session.rows, Parked cfg row := by
    intro session hempty row hrow
    rw [hempty] at hrow
    cases hrow
  have hheld : ∀ {i : Nat} {session : Session π}, s.sessions[i]? = some session →
      ∀ row ∈ session.rows, Parked cfg row := fun hi => hs.sessions _ (List.mem_of_getElem? hi)
  cases moves_of_step ha with
  | connect =>
    refine ⟨?_, hs.rows⟩
    intro session hmem
    rcases List.mem_append.mp hmem with hold | hnew
    · exact hs.sessions session hold
    · rw [List.mem_singleton.mp hnew]
      exact hnone .idle rfl
  | @stageAdd i taskName payload session staged hi hstaged =>
    refine hs.put ?_ rfl hs.rows
    intro row hrow
    rcases List.mem_append.mp hrow with hold | hnew
    · refine hheld hi row ?_
      cases session <;> simp_all [Session.staged, Session.rows]
    · rw [List.mem_singleton.mp hnew]
      intro hfailed
      cases hfailed
  | select hi hrows hsel =>
    refine hs.put ?_ rfl hs.rows
    exact fun row hrow => hs.rows row (Table.mem_of_get (hrows row hrow))
  | @enqueue i answer row todo done hi =>
    have hsessions : ((s.dispatch cfg row answer).1.put i
        (.dispatching todo (done ++ [(s.dispatch cfg row answer).2]))).sessions =
        s.sessions.set i (.dispatching todo (done ++ [(s.dispatch cfg row answer).2])) := by
      simp [State.put]
    refine hs.put ?_ hsessions (by simpa [State.put] using hs.rows)
    have hrows := hheld hi
    have htried := State.tried_dispatch cfg s row answer
    intro row' hrow'
    simp only [Session.rows, List.append_assoc, List.mem_append, List.mem_cons, List.not_mem_nil, or_false] at hrow' hrows
    rcases hrow' with hdone | rfl | htodo
    · exact hrows row' (.inl hdone)
    · exact htried.parked (hrows row (.inr (.inl rfl)))
    · exact hrows row' (.inr (.inr htodo))
  | delete hi hvictims hfree => exact hs.put (hnone (.cleaning _) rfl) rfl hs.rows
  | commitStaged hi hins =>
    refine hs.put (hnone .idle rfl) rfl ?_
    intro row hrow
    replace hrow := Table.rows_insertAll hins ▸ hrow
    rcases List.mem_append.mp hrow with hstaged | hold
    · exact hheld hi row (List.mem_reverse.mp hstaged)
    · exact hs.rows row hold
  | commitRefused hi => exact hs.put (hnone .idle rfl) rfl hs.rows
  | @commitDispatched i done hi =>
    refine hs.put (hnone .idle rfl) rfl ?_
    intro row hrow
    replace hrow : row ∈ (flushAll done s.events).rows := hrow
    rw [rows_flushAll] at hrow
    obtain ⟨old, hold, rfl⟩ := List.mem_map.mp hrow
    exact parked_flushInto (fun row hrow => hheld hi row (List.mem_append_left _ hrow)) (hs.rows old hold)
  | commitCleaned hi => exact hs.put (hnone .idle rfl) rfl fun row hrow => hs.rows row (Table.mem_deleteWhere.mp hrow).1
  | close hi => exact hs.put (hnone .idle rfl) rfl hs.rows
  | finish => exact ⟨hs.sessions, hs.rows⟩
  | tick => exact ⟨hs.sessions, hs.rows⟩

/-! The backlog: what is neither handed over nor parked is in the query's sight. -/

theorem ageSeconds_mono {now now' oldest oldest' : Time} (hnow : now ≤ now') (holdest : oldest' ≤ oldest) :
    ageSeconds now oldest ≤ ageSeconds now' oldest' := by
  refine Rounding.roundTo_mono (by norm_num) ?_
  have hle : now - oldest ≤ now' - oldest' := Int.sub_le_sub hnow holdest
  exact div_le_div_of_nonneg_right (by exact_mod_cast hle) (by norm_num)

theorem backlogEnding_returned {cfg : HealthSettings} {now oldest : Time} :
    backlogEnding cfg now oldest = .returned ↔ ageSeconds now oldest ≤ cfg.outboxMaxLagSeconds := by
  unfold backlogEnding
  split
  · next hlag => simp [not_le.mpr hlag]
  · next hlag => simp [not_lt.mp hlag]

/-- What the minimum is over the pending rows. -/
theorem State.oldestPending_spec (s : State π) :
    (∀ oldest, s.oldestPending = some oldest →
      ∃ row ∈ s.events.rows, row.pending = true ∧ row.createdAt = oldest) ∧
      ∀ row ∈ s.events.rows, row.pending = true →
        ∃ oldest, s.oldestPending = some oldest ∧ oldest ≤ row.createdAt := by
  unfold State.oldestPending
  constructor
  · intro oldest holdest
    obtain ⟨row, hrow, hcreated⟩ := List.mem_map.mp (List.min?_eq_some_iff.mp holdest).1
    obtain ⟨hmem, hpending⟩ := List.mem_filter.mp hrow
    exact ⟨row, hmem, hpending, hcreated⟩
  · intro row hrow hpending
    have hmem : row.createdAt ∈ (s.events.rows.filter OutboxEvent.pending).map OutboxEvent.createdAt :=
      List.mem_map_of_mem (List.mem_filter.mpr ⟨hrow, hpending⟩)
    cases hmin : ((s.events.rows.filter OutboxEvent.pending).map OutboxEvent.createdAt).min? with
    | none =>
      rw [List.min?_eq_none_iff.mp hmin] at hmem
      cases hmem
    | some oldest => exact ⟨oldest, rfl, (List.min?_eq_some_iff.mp hmin).2 _ hmem⟩

/-- Every committed event was handed to the queue, or its row is parked with no
attempts left, or it is pending and not older than the lag that is allowed. -/
def Site.KeepsUp (cfg : HealthSettings) (s : Site π) : Prop :=
  ∀ event ∈ s.outbox.committed, s.outbox.Handed event.id ∨
    ∃ row, s.outbox.events.get event.id = some row ∧
      (row.failedAt.isSome = true ∧ cfg.outboxMaxAttempts ≤ row.attempts ∨
        row.pending = true ∧ ageSeconds s.outbox.now row.createdAt ≤ cfg.outboxMaxLagSeconds)

/-- What holds of the site whatever it has done. -/
structure Sound (cfg : HealthSettings) (s : Site π) : Prop where
  beats : Beats cfg s
  delivers : Delivers s.outbox
  parks : Parks cfg.toOutboxSettings s.outbox

theorem Sound.step {cfg : HealthSettings} {s s' : Site π} {a : SiteAction π} (hs : Sound cfg s)
    (ha : (site cfg).step s a = some s') : Sound cfg s' := by
  have hmoves := siteMoves_of_step ha
  rcases hmoves.outbox_step with hsame | ⟨b, hb⟩
  · exact ⟨hs.beats.moves hmoves, hsame ▸ hs.delivers, hsame ▸ hs.parks⟩
  · exact ⟨hs.beats.moves hmoves, hs.delivers.step hb, hs.parks.step hb⟩

theorem Sound.init (cfg : HealthSettings) (now : Time) : Sound cfg (Site.init now : Site π) := by
  refine ⟨Beats.init cfg now, Delivers.init now, ?_, ?_⟩
  · intro session hsession
    cases hsession
  · intro row hrow
    cases hrow

theorem Sound.of_reaches {cfg : HealthSettings} {s s' : Site π} (hs : Sound cfg s) (h : (site cfg).Reaches s s') :
    Sound cfg s' := h.invariant (fun _ _ _ hv _ ha => hv.step ha) hs

/-- No row in the query's sight is too old, at the query or later. -/
theorem Sound.keepsUp {cfg : HealthSettings} {s : Site π} (hs : Sound cfg s) {later : Time}
    (hlater : s.outbox.now ≤ later)
    (hold : ∀ oldest, s.outbox.oldestPending = some oldest → ageSeconds later oldest ≤ cfg.outboxMaxLagSeconds) :
    s.KeepsUp cfg := by
  intro event hevent
  cases hget : s.outbox.events.get event.id with
  | none => exact .inl (hs.delivers.kept event hevent hget)
  | some row =>
    have hmem := Table.mem_of_get hget
    have hid : row.id = event.id := Table.get_key hget
    by_cases hpending : row.pending = true
    · obtain ⟨oldest, holdest, hle⟩ := s.outbox.oldestPending_spec.2 row hmem hpending
      exact .inr ⟨row, rfl, .inr ⟨hpending, (ageSeconds_mono hlater hle).trans (hold oldest holdest)⟩⟩
    · -- the row has a mark: the job was put, or the attempts are used up
      by_cases hmark : row.dispatchedAt.isSome = true
      · exact .inl (hid ▸ (hs.delivers.rows row hmem).marked hmark)
      · have hfailed : row.failedAt.isSome = true := by
          simp only [OutboxEvent.pending, Bool.and_eq_true, Option.isNone_iff_eq_none, not_and] at hpending
          exact Option.isSome_iff_ne_none.mpr (hpending (Option.not_isSome_iff_eq_none.mp hmark))
        exact .inr ⟨row, rfl, .inl ⟨hfailed, hs.parks.rows row hmem hfailed⟩⟩

/-! What a request has seen. -/

/-- The site was so at some moment between two. -/
def Observed (cfg : HealthSettings) (s s' : Site π) (P : Site π → Prop) : Prop :=
  ∃ v, (site cfg).Reaches s v ∧ (site cfg).Reaches v s' ∧ P v

theorem Observed.now {cfg : HealthSettings} {s s' : Site π} {P : Site π → Prop} (h : (site cfg).Reaches s s')
    (hs' : P s') : Observed cfg s s' P := ⟨s', h, .refl, hs'⟩

theorem Observed.later {cfg : HealthSettings} {s s' s'' : Site π} {P : Site π → Prop} (h : Observed cfg s s' P)
    (hstep : (site cfg).Reaches s' s'') : Observed cfg s s'' P := by
  obtain ⟨v, hbefore, hafter, hv⟩ := h
  exact ⟨v, hbefore, hafter.trans hstep, hv⟩

/-- A row was pending that the clock, read later, finds too old. -/
def Site.LagsBefore (cfg : HealthSettings) (s' s : Site π) : Prop :=
  ∃ row ∈ s.outbox.events.rows, row.pending = true ∧
    Observed cfg s s' (fun v => cfg.outboxMaxLagSeconds < ageSeconds v.outbox.now row.createdAt)

/-- What the endings of a request's checks stand for, of a request that came at `s`. -/
structure Told (cfg : HealthSettings) (s s' : Site π) (probe : Probe) : Prop where
  worker : probe.worker = some .returned → Observed cfg s s' (fun v => 0 < v.workers)
  noWorker : ∀ text, probe.worker = some (.refused text) → Observed cfg s s' (fun v => v.workers = 0)
  relay : probe.relay = some .returned → Observed cfg s s' (Site.Beating cfg)
  noRelay : ∀ text, probe.relay = some (.refused text) → Observed cfg s s' (Site.Silent cfg)
  answered : ∀ oldest, probe.backlog = .answered oldest →
    Observed cfg s s' (fun v => v.outbox.oldestPending = some oldest)
  backlog : probe.backlog = .ended .returned → Observed cfg s s' (Site.KeepsUp cfg)
  lag : ∀ text, probe.backlog = .ended (.refused text) → Observed cfg s s' (Site.LagsBefore cfg s')

theorem Told.new (cfg : HealthSettings) (s s' : Site π) : Told cfg s s' .new := by
  refine ⟨?_, ?_, ?_, ?_, ?_, ?_, ?_⟩ <;> simp [Probe.new]

theorem Told.later {cfg : HealthSettings} {s s' s'' : Site π} {probe : Probe} (h : Told cfg s s' probe)
    (hstep : (site cfg).Reaches s' s'') : Told cfg s s'' probe := by
  refine ⟨fun hp => (h.worker hp).later hstep, fun text hp => (h.noWorker text hp).later hstep,
    fun hp => (h.relay hp).later hstep, fun text hp => (h.noRelay text hp).later hstep,
    fun oldest hp => (h.answered oldest hp).later hstep, fun hp => (h.backlog hp).later hstep, ?_⟩
  intro text hp
  obtain ⟨v, hbefore, hafter, row, hrow, hpending, hlag⟩ := h.lag text hp
  exact ⟨v, hbefore, hafter.trans hstep, row, hrow, hpending, hlag.later hstep⟩

theorem raise_spec {probe probe' : Probe} {check : Check} {err : Exc} (h : probe.raise err check = some probe') :
    probe' = { probe with worker := some (.raised err) } ∨ probe' = { probe with relay := some (.raised err) } ∨
      probe' = { probe with backlog := .ended (.raised err) } := by
  cases check with
  | worker =>
    simp only [Probe.raise] at h
    split at h
    · exact .inl (Option.some.inj h).symm
    · cases h
  | relay =>
    simp only [Probe.raise] at h
    split at h
    · exact .inr (.inl (Option.some.inj h).symm)
    · cases h
  | backlog =>
    simp only [Probe.raise] at h
    split at h
    · cases h
    · exact .inr (.inr (Option.some.inj h).symm)

/-- A check that ends says what the site is like at that moment. -/
theorem Told.check {cfg : HealthSettings} {s s' : Site π} {probe probe' : Probe} (hs : Sound cfg s)
    (hrun : (site cfg).Reaches s s') (h : Told cfg s s' probe) (hcheck : Checks cfg s' probe probe') :
    Told cfg s s' probe' := by
  have hs' := hs.of_reaches hrun
  cases hcheck with
  | info =>
    refine ⟨?_, ?_, h.relay, h.noRelay, h.answered, h.backlog, h.lag⟩
    · intro hreturned
      refine .now hrun (Nat.pos_of_ne_zero fun hzero => ?_)
      simp [Site.checkWorker, hzero] at hreturned
    · intro text hrefused
      refine .now hrun (by_contra fun hne => ?_)
      simp [Site.checkWorker, hne] at hrefused
  | heartbeat =>
    refine ⟨h.worker, h.noWorker, ?_, ?_, h.answered, h.backlog, h.lag⟩
    · exact fun hreturned => .now hrun (hs'.beats.check.1 (Option.some.inj hreturned))
    · exact fun text hrefused => .now hrun (hs'.beats.check.2 text (Option.some.inj hrefused))
  | query =>
    cases holdest : s'.outbox.oldestPending with
    | none =>
      refine ⟨h.worker, h.noWorker, h.relay, h.noRelay, by simp, ?_, by simp⟩
      exact fun _ => .now hrun (hs'.keepsUp (le_refl _) (by simp [holdest]))
    | some oldest =>
      refine ⟨h.worker, h.noWorker, h.relay, h.noRelay, ?_, by simp, by simp⟩
      intro oldest' hanswered
      rw [← Backlog.answered.inj hanswered]
      exact .now hrun holdest
  | @clock worker relay oldest =>
    obtain ⟨v, hbefore, hafter, hv⟩ := h.answered oldest rfl
    refine ⟨h.worker, h.noWorker, h.relay, h.noRelay, by simp, ?_, ?_⟩
    · -- the clock moved on since the query, so what it allows now it allowed then
      intro hreturned
      have hage := backlogEnding_returned.mp (Backlog.ended.inj hreturned)
      refine ⟨v, hbefore, hafter, (hs.of_reaches hbefore).keepsUp (now_le_of_reaches hafter) ?_⟩
      intro oldest' holdest
      rwa [← Option.some.inj (hv.symm.trans holdest)]
    · intro text hrefused
      obtain ⟨row, hrow, hpending, hcreated⟩ := v.outbox.oldestPending_spec.1 oldest hv
      refine ⟨v, hbefore, hafter, row, hrow, hpending, .now hafter ?_⟩
      have hnot : backlogEnding cfg s'.outbox.now oldest ≠ .returned := by
        rw [Backlog.ended.inj hrefused]
        simp
      rw [hcreated]
      exact not_le.mp (mt backlogEnding_returned.mpr hnot)
  | raise hraise =>
    rcases raise_spec hraise with rfl | rfl | rfl
    · exact ⟨by simp, by simp, h.relay, h.noRelay, h.answered, h.backlog, h.lag⟩
    · exact ⟨h.worker, h.noWorker, by simp, by simp, h.answered, h.backlog, h.lag⟩
    · exact ⟨h.worker, h.noWorker, h.relay, h.noRelay, by simp, by simp, by simp⟩

theorem Told.moves {cfg : HealthSettings} {s s' s'' : Site π} {p : Nat} {probe : Probe} (hs : Sound cfg s)
    (hrun : (site cfg).Reaches s s') (hp : s'.probes[p]? = some probe) (h : Told cfg s s' probe) {a : SiteAction π}
    (ha : (site cfg).step s' a = some s'') : ∃ probe', s''.probes[p]? = some probe' ∧ Told cfg s s'' probe' := by
  have hstep : (site cfg).Reaches s' s'' := .single ⟨a, trivial, ha⟩
  have hsame : s''.probes[p]? = some probe → ∃ probe', s''.probes[p]? = some probe' ∧ Told cfg s s'' probe' :=
    fun hp => ⟨probe, hp, h.later hstep⟩
  cases siteMoves_of_step ha with
  | probe =>
    have hlt := (List.getElem?_eq_some_iff.mp hp).1
    exact hsame ((List.getElem?_append_left hlt).trans hp)
  | @check q probe₀ probe' hq hcheck =>
    by_cases hpq : q = p
    · subst hpq
      obtain rfl := Option.some.inj (hp.symm.trans hq)
      have hlt := (List.getElem?_eq_some_iff.mp hp).1
      exact ⟨probe', List.getElem?_set_self hlt, (h.check hs hrun hcheck).later hstep⟩
    · exact hsame ((List.getElem?_set_ne hpq).trans hp)
  | _ => exact hsame hp

/-- The report is of three endings. -/
theorem Probe.report_eq_some {probe : Probe} {report : Report} (h : probe.report = some report) :
    ∃ worker relay backlog, probe = ⟨some worker, some relay, .ended backlog⟩ ∧
      report = runChecks [("worker", worker), ("outbox_relay", relay), ("outbox_backlog", backlog)] := by
  unfold Probe.report at h
  split at h
  · exact ⟨_, _, _, rfl, (Option.some.inj h).symm⟩
  · cases h

/-- **The health check means what it says.** Whatever the relays, the producers, the
cleanup, the queue and Redis do, and whatever fails: when a request to
`/health/workers` is answered with 200, then at moments since it came a worker was
registered; a relay had committed a poll and set its heartbeat less than the time to
live before; and every committed event was handed to the queue, parked with no
attempts left, or pending and not older than the lag that is allowed. Any other answer
is a 503, and then what a check awaited raised, or since the request came there was a
moment with no worker registered, or one with no heartbeat but expired ones in Redis, or
one with a row pending (with its job handed over, maybe, by a relay that has not
committed) that the clock, read later, found too old. -/
theorem workers_report {cfg : HealthSettings} {now : Time} {s s' : Site π} {p : Nat} {probe : Probe} {report : Report}
    (hsite : (site cfg).Reaches (Site.init now) s) (hnew : s.probes[p]? = some .new)
    (hrun : (site cfg).Reaches s s') (hp : s'.probes[p]? = some probe) (hreport : probe.report = some report) :
    (report.statusCode = 200 → Observed cfg s s' (fun v => 0 < v.workers) ∧ Observed cfg s s' (Site.Beating cfg) ∧
      Observed cfg s s' (Site.KeepsUp cfg)) ∧
    (report.statusCode ≠ 200 → report.statusCode = 503 ∧
      ((∃ err, probe.worker = some (.raised err) ∨ probe.relay = some (.raised err) ∨ probe.backlog = .ended (.raised err)) ∨
        Observed cfg s s' (fun v => v.workers = 0) ∨ Observed cfg s s' (Site.Silent cfg) ∨
        Observed cfg s s' (Site.LagsBefore cfg s'))) := by
  have hs : Sound cfg s := (Sound.init cfg now).of_reaches hsite
  have htold : (site cfg).Reaches s s' ∧ ∃ probe, s'.probes[p]? = some probe ∧ Told cfg s s' probe := by
    refine hrun.invariant (J := fun v => (site cfg).Reaches s v ∧ ∃ probe, v.probes[p]? = some probe ∧ Told cfg s v probe)
      ?_ ⟨.refl, _, hnew, Told.new cfg s s⟩
    rintro v a v' ⟨hv, probe, hp, htold⟩ - ha
    exact ⟨hv.tail ⟨a, trivial, ha⟩, htold.moves hs hv hp ha⟩
  obtain ⟨-, probe', hp', htold⟩ := htold
  obtain rfl := Option.some.inj (hp.symm.trans hp')
  obtain ⟨worker, relay, backlog, rfl, rfl⟩ := Probe.report_eq_some hreport
  obtain ⟨hcode, hcodes⟩ := runChecks_statusCode [("worker", worker), ("outbox_relay", relay), ("outbox_backlog", backlog)]
  simp only [List.mem_cons, List.not_mem_nil, or_false, forall_eq_or_imp, forall_eq] at hcode
  constructor
  · intro hok
    obtain ⟨rfl, rfl, rfl⟩ := hcode.mp hok
    exact ⟨htold.worker rfl, htold.relay rfl, htold.backlog rfl⟩
  · intro hbad
    refine ⟨hcodes.resolve_left hbad, ?_⟩
    cases worker with
    | refused text => exact .inr (.inl (htold.noWorker text rfl))
    | raised err => exact .inl ⟨err, .inl rfl⟩
    | returned =>
      cases relay with
      | refused text => exact .inr (.inr (.inl (htold.noRelay text rfl)))
      | raised err => exact .inl ⟨err, .inr (.inl rfl)⟩
      | returned =>
        cases backlog with
        | refused text => exact .inr (.inr (.inr (htold.lag text rfl)))
        | raised err => exact .inl ⟨err, .inr (.inr rfl)⟩
        | returned => exact absurd (hcode.mpr ⟨rfl, rfl, rfl⟩) hbad

def sampleSite : HealthSettings := ⟨⟨10, 604800000000⟩, 5, 100, 60⟩

/-- The state a list of actions leaves. -/
def Site.after (s : Site String) (actions : List (SiteAction String)) : Site String :=
  ((site sampleSite).run s actions).getD s

theorem Site.reaches_after (s : Site String) (actions : List (SiteAction String)) :
    (site sampleSite).Reaches s (s.after actions) := by
  unfold Site.after
  cases hrun : (site sampleSite).run s actions with
  | none => exact .refl
  | some s' => exact Machine.reaches_of_run hrun

/-- An event is handed over, the relay beats, a request comes. -/
def Site.sampleBefore : Site String :=
  (Site.init 0).after [.start, .outbox .connect, .outbox .connect, .outbox (.stageAdd 1 "send_email_task" "welcome"),
    .outbox (.commit 1), .poll 0 0 [0], .enqueue 0 .returns, .commit 0, .outbox (.tick 1000), .beat 0, .register 1,
    .probe]

/-- A second event is committed before the query, and twenty seconds pass. -/
def Site.sampleAfter : Site String :=
  Site.sampleBefore.after [.info 0, .outbox (.stageAdd 1 "send_email_task" "reset"), .outbox (.commit 1), .query 0,
    .outbox (.tick 20000000), .heartbeat 0, .clock 0]

theorem workers_report_sample :
    Observed sampleSite Site.sampleBefore Site.sampleAfter (Site.Beating sampleSite) ∧
      Observed sampleSite Site.sampleBefore Site.sampleAfter (Site.KeepsUp sampleSite) :=
  have hreport := workers_report (p := 0) (Site.reaches_after _ _) (by decide +kernel) (Site.reaches_after _ _)
    (show Site.sampleAfter.probes[0]? = some ⟨some .returned, some .returned, .ended .returned⟩ by decide +kernel) rfl
  (hreport.1 (by decide)).2

/-- A minute later no heartbeat is left and the second event is too old. -/
example : ((Site.sampleBefore.after [.info 0, .outbox (.stageAdd 1 "send_email_task" "reset"), .outbox (.commit 1),
    .query 0, .outbox (.tick 60400000), .heartbeat 0, .clock 0]).probes[0]?.bind Probe.report) =
    some ⟨503, "unhealthy", [("worker", "ok"), ("outbox_relay", "unhealthy: outbox relay heartbeat missing"),
      ("outbox_backlog", "unhealthy: oldest pending outbox row is 60s old")]⟩ := by decide +kernel

end Outbox
end FastiKit
