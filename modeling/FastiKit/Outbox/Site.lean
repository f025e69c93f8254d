import FastiKit.KeyValue.Expiring
import FastiKit.Numeric.Rounding
import FastiKit.Outbox.Relay

/- The outbox with the relays that poll it, and the requests for its health.

   Correspondence (Python ↔ Lean):
     a turn of `relay_loop`                    ↔ `Turn`, `SiteAction.poll` to `SiteAction.fail`
     `_start_relay`, `_release_pools`          ↔ `SiteAction.start`, `SiteAction.stop`
     `RELAY_HEARTBEAT_TTL`                     ↔ `HealthSettings.relayHeartbeatTtl`
     `OutboxRepository.oldest_pending_age`     ↔ `State.oldestPending`, `ageSeconds`
     `_check_worker`, `_check_relay_heartbeat` ↔ `Site.checkWorker`, `Site.checkRelayHeartbeat`
     `_check_outbox_backlog`                   ↔ `SiteAction.query`, `SiteAction.clock`, `backlogEnding`
     `_run_checks`                             ↔ `runChecks`
     `workers`                                 ↔ `Probe`, `Probe.report`
   The three checks run side by side, each sees the site at a moment of its own, and
   each may end in what it awaits raising. The backlog check sees it twice: the query
   and the clock. Which SAQ workers are registered is up to SAQ; Redis may lose its
   keys at any time. -/
namespace FastiKit

open Interleave Relational KeyValue

/-- The settings the relay loop and the health checks read. -/
structure HealthSettings extends OutboxSettings where
  outboxPollInterval : ℚ
  outboxBatchSize : Nat
  outboxMaxLagSeconds : ℚ

/-- `max(30, int(6 * settings.outbox_poll_interval))`, in seconds. -/
def HealthSettings.relayHeartbeatTtl (cfg : HealthSettings) : Int :=
  max 30 (Rounding.truncate (Rounding.binary64 (6 * cfg.outboxPollInterval)))

/-- The same as a length of time. -/
def HealthSettings.ttl (cfg : HealthSettings) : Time := cfg.relayHeartbeatTtl * 1000000

theorem HealthSettings.ttl_pos (cfg : HealthSettings) : 0 < cfg.ttl := by
  have hmax : 30 ≤ cfg.relayHeartbeatTtl := le_max_left _ _
  simp only [HealthSettings.ttl, Time]
  omega

namespace Outbox

def relayHeartbeatKey : String := "outbox:relay:heartbeat"

/-! The report. -/

/-- An exception, as far as the report shows it. -/
structure Exc where
  type : String
  text : String
  deriving DecidableEq, Repr

/-- How a check ends. -/
inductive Ending where
  | returned
  /-- The check's own `raise RuntimeError(...)`. -/
  | refused (text : String)
  /-- What the check awaits raises, or it takes longer than `CHECK_TIMEOUT`. -/
  | raised (err : Exc)
  deriving DecidableEq, Repr

def Ending.error : Ending → Option Exc
  | returned => none
  | refused text => some ⟨"RuntimeError", text⟩
  | raised err => some err

/-- `str(result) or type(result).__name__` -/
def Exc.detail (err : Exc) : String := if err.text = "" then err.type else err.text

/-- The answer: its status code, and the two entries of its body. -/
structure Report where
  statusCode : Nat
  status : String
  checks : List (String × String)
  deriving DecidableEq, Repr

/-- `_run_checks`, once the checks have ended. -/
def runChecks (results : List (String × Ending)) : Report :=
  let report := results.map fun result =>
    (result.1, result.2.error.elim "ok" (fun err => "unhealthy: " ++ err.detail))
  if results.all (fun result => result.2.error.isNone) then ⟨200, "ok", report⟩
  else ⟨503, "unhealthy", report⟩

theorem Ending.error_eq_none {ending : Ending} : ending.error = none ↔ ending = .returned := by
  cases ending <;> simp [Ending.error]

/-- The code says whether all the checks returned. -/
theorem runChecks_statusCode (results : List (String × Ending)) :
    ((runChecks results).statusCode = 200 ↔ ∀ result ∈ results, result.2 = .returned) ∧
      ((runChecks results).statusCode = 200 ∨ (runChecks results).statusCode = 503) := by
  have hall : results.all (fun result => result.2.error.isNone) = true ↔ ∀ result ∈ results, result.2 = .returned := by
    simp only [List.all_eq_true, Option.isNone_iff_eq_none, Ending.error_eq_none]
  unfold runChecks
  split
  · next h => exact ⟨⟨fun _ => hall.mp h, fun _ => rfl⟩, .inl rfl⟩
  · next h => exact ⟨⟨fun hcode => absurd hcode (by simp), fun hreturned => absurd (hall.mpr hreturned) h⟩, .inr rfl⟩

/-! The checks. -/

/-- `(now - oldest).total_seconds()` -/
def ageSeconds (now oldest : Time) : ℚ := Rounding.binary64 (((now - oldest : Time) : ℚ) / 1000000)

/-- `f"{x:.0f}"` -/
def formatInteger (x : ℚ) : String := (if x < 0 then "-" else "") ++ toString (Rounding.halfEven |x|)

/-- The rest of `_check_outbox_backlog`, after its query, when the clock is read. -/
def backlogEnding (cfg : HealthSettings) (now oldest : Time) : Ending :=
  if cfg.outboxMaxLagSeconds < ageSeconds now oldest then
    .refused ("oldest pending outbox row is " ++ formatInteger (ageSeconds now oldest) ++ "s old")
  else .returned

variable {π : Type}

/-- `select min(created_at) where dispatched_at is null and failed_at is null` -/
def State.oldestPending (s : State π) : Option Time :=
  ((s.events.rows.filter OutboxEvent.pending).map OutboxEvent.createdAt).min?

/-- Where `_check_outbox_backlog` is. -/
inductive Backlog where
  | asking
  | answered (oldest : Time)
  | ended (ending : Ending)
  deriving DecidableEq, Repr

/-- A request to `/health/workers`: how far its three checks are. -/
structure Probe where
  worker : Option Ending
  relay : Option Ending
  backlog : Backlog
  deriving DecidableEq, Repr

inductive Check where
  | worker
  | relay
  | backlog
  deriving DecidableEq, Repr

namespace Probe

def new : Probe := ⟨none, none, .asking⟩

/-- The answer, when the last check has ended. -/
def report : Probe → Option Report
  | ⟨some worker, some relay, .ended backlog⟩ =>
    some (runChecks [("worker", worker), ("outbox_relay", relay), ("outbox_backlog", backlog)])
  | _ => none

/-- What a check awaits raises, if the check has not ended. -/
def raise (err : Exc) (probe : Probe) : Check → Option Probe
  | .worker => if probe.worker.isNone then some { probe with worker := some (.raised err) } else none
  | .relay => if probe.relay.isNone then some { probe with relay := some (.raised err) } else none
  | .backlog =>
    match probe.backlog with
    | .ended _ => none
    | _ => some { probe with backlog := .ended (.raised err) }

end Probe

/-! The site. -/

/-- Where a relay is in its loop; `polled` records when its last commit was. -/
inductive Turn where
  | sleeping
  | dispatching (i : Nat)
  | beating (polled : Time)
  | stopped
  deriving DecidableEq, Repr

/-- A heartbeat: when it was set, and the commit before it. -/
structure Beat where
  polled : Time
  moment : Time
  deriving DecidableEq, Repr

/-- The outbox with its relays, Redis and the requests for its health. The last two
fields record the commits of the relays and the heartbeats since Redis last lost its
keys. -/
structure Site (π : Type) where
  outbox : State π
  relays : List Turn
  redis : Keys String String
  workers : Nat
  probes : List Probe
  polls : List Time
  beats : List Beat

inductive SiteAction (π : Type) where
  /-- What the producers, the cleanup, the queue's workers and the clock do. -/
  | outbox (a : Action π)
  | start
  | poll (r i : Nat) (ids : List Uuid)
  | enqueue (r : Nat) (answer : Answer)
  | commit (r : Nat)
  | beat (r : Nat)
  /-- Whatever the turn of the relay awaits raises. -/
  | fail (r : Nat)
  | stop (r : Nat)
  | loseKeys
  | register (workers : Nat)
  | probe
  | info (p : Nat)
  | heartbeat (p : Nat)
  | query (p : Nat)
  | clock (p : Nat)
  | raise (p : Nat) (check : Check) (err : Exc)

namespace Site

def init (now : Time) : Site π := ⟨.init now, [], fun _ => none, 0, [], [], []⟩

def turn (s : Site π) (r : Nat) (turn : Turn) : Site π := { s with relays := s.relays.set r turn }

def put (s : Site π) (p : Nat) (probe : Probe) : Site π := { s with probes := s.probes.set p probe }

/-- No relay uses the session. -/
def free (s : Site π) (i : Nat) : Bool := s.relays.all (fun turn => turn ≠ .dispatching i)

/-- The action is not one of a relay. -/
def ofOthers (s : Site π) : Action π → Bool
  | .select _ _ _ | .enqueue _ _ => false
  | .stageAdd i _ _ | .delete i | .commit i | .close i => s.free i
  | _ => true

/-- An action on the outbox. -/
def onOutbox (cfg : HealthSettings) (s : Site π) (a : Action π) : Option (Site π) :=
  ((machine cfg.toOutboxSettings).step s.outbox a).map fun outbox => { s with outbox }

/-- The session of a relay that leaves its turn is closed. -/
def leave (cfg : HealthSettings) (s : Site π) (r : Nat) (next : Turn) : Option (Site π) :=
  match s.relays[r]? with
  | some (.dispatching i) => (s.onOutbox cfg (.close i)).map fun s => s.turn r next
  | some .stopped | none => none
  | _ => some (s.turn r next)

/-- `_check_worker`: `task_queue.info()` lists the registered workers. -/
def checkWorker (s : Site π) : Ending :=
  if s.workers = 0 then .refused "no active SAQ worker" else .returned

/-- `_check_relay_heartbeat` -/
def checkRelayHeartbeat (s : Site π) : Ending :=
  if (read s.redis s.outbox.now relayHeartbeatKey).isSome then .returned
  else .refused "outbox relay heartbeat missing"

end Site

/-- The site as a machine. -/
def site (cfg : HealthSettings) : Machine (Site π) (SiteAction π) where
  step s
    | .outbox a => if s.ofOthers a then s.onOutbox cfg a else none
    | .start => some { s with relays := s.relays ++ [.sleeping] }
    | .poll r i ids =>
      match s.relays[r]? with
      | some .sleeping =>
        (s.onOutbox cfg (.select i cfg.outboxBatchSize ids)).map fun s => s.turn r (.dispatching i)
      | _ => none
    | .enqueue r answer =>
      match s.relays[r]? with
      | some (.dispatching i) => s.onOutbox cfg (.enqueue i answer)
      | _ => none
    | .commit r =>
      match s.relays[r]? with
      | some (.dispatching i) =>
        (s.onOutbox cfg (.commit i)).map fun s =>
          { s.turn r (.beating s.outbox.now) with polls := s.outbox.now :: s.polls }
      | _ => none
    | .beat r =>
      match s.relays[r]? with
      | some (.beating polled) =>
        some { s.turn r .sleeping with
          redis := setEx s.redis s.outbox.now relayHeartbeatKey "1" cfg.ttl
          beats := ⟨polled, s.outbox.now⟩ :: s.beats }
      | _ => none
    | .fail r => s.leave cfg r .sleeping
    | .stop r => s.leave cfg r .stopped
    | .loseKeys => some { s with redis := fun _ => none, beats := [] }
    | .register workers => some { s with workers }
    | .probe => some { s with probes := s.probes ++ [.new] }
    | .info p =>
      match s.probes[p]? with
      | some ⟨none, relay, backlog⟩ => some (s.put p ⟨some s.checkWorker, relay, backlog⟩)
      | _ => none
    | .heartbeat p =>
      match s.probes[p]? with
      | some ⟨worker, none, backlog⟩ => some (s.put p ⟨worker, some s.checkRelayHeartbeat, backlog⟩)
      | _ => none
    | .query p =>
      match s.probes[p]? with
      | some ⟨worker, relay, .asking⟩ =>
        some (s.put p ⟨worker, relay, s.outbox.oldestPending.elim (.ended .returned) .answered⟩)
      | _ => none
    | .clock p =>
      match s.probes[p]? with
      | some ⟨worker, relay, .answered oldest⟩ =>
        some (s.put p ⟨worker, relay, .ended (backlogEnding cfg s.outbox.now oldest)⟩)
      | _ => none
    | .raise p check err =>
      (s.probes[p]?.bind (fun probe => probe.raise err check)).map fun probe => s.put p probe

/-! What a step of the site does, read once off the machine. -/

/-- What a step of one request's checks makes of it. -/
inductive Checks (cfg : HealthSettings) (s : Site π) : Probe → Probe → Prop where
  | info {relay : Option Ending} {backlog : Backlog} :
      Checks cfg s ⟨none, relay, backlog⟩ ⟨some s.checkWorker, relay, backlog⟩
  | heartbeat {worker : Option Ending} {backlog : Backlog} :
      Checks cfg s ⟨worker, none, backlog⟩ ⟨worker, some s.checkRelayHeartbeat, backlog⟩
  | query {worker relay : Option Ending} :
      Checks cfg s ⟨worker, relay, .asking⟩
        ⟨worker, relay, s.outbox.oldestPending.elim (.ended .returned) .answered⟩
  | clock {worker relay : Option Ending} {oldest : Time} :
      Checks cfg s ⟨worker, relay, .answered oldest⟩
        ⟨worker, relay, .ended (backlogEnding cfg s.outbox.now oldest)⟩
  | raise {probe probe' : Probe} {check : Check} {err : Exc} (h : probe.raise err check = some probe') :
      Checks cfg s probe probe'

inductive SiteMoves (cfg : HealthSettings) (s : Site π) : Site π → Prop where
  | outbox {a : Action π} {outbox : State π} (ha : (machine cfg.toOutboxSettings).step s.outbox a = some outbox) :
      SiteMoves cfg s { s with outbox }
  /-- A relay moves, and no commit or heartbeat is new. -/
  | turn {a : Action π} {r : Nat} {next : Turn} {outbox : State π}
      (ha : outbox = s.outbox ∨ (machine cfg.toOutboxSettings).step s.outbox a = some outbox)
      (hnext : ∀ polled, next ≠ .beating polled) :
      SiteMoves cfg s { s.turn r next with outbox }
  | start : SiteMoves cfg s { s with relays := s.relays ++ [.sleeping] }
  | commit {r i : Nat} {outbox : State π}
      (ha : (machine cfg.toOutboxSettings).step s.outbox (.commit i) = some outbox) :
      SiteMoves cfg s { s.turn r (.beating outbox.now) with outbox, polls := outbox.now :: s.polls }
  | beat {r : Nat} {polled : Time} (hr : s.relays[r]? = some (.beating polled)) :
      SiteMoves cfg s { s.turn r .sleeping with
        redis := setEx s.redis s.outbox.now relayHeartbeatKey "1" cfg.ttl
        beats := ⟨polled, s.outbox.now⟩ :: s.beats }
  | loseKeys : SiteMoves cfg s { s with redis := fun _ => none, beats := [] }
  | register {workers : Nat} : SiteMoves cfg s { s with workers }
  | probe : SiteMoves cfg s { s with probes := s.probes ++ [.new] }
  | check {p : Nat} {probe probe' : Probe} (hp : s.probes[p]? = some probe) (hcheck : Checks cfg s probe probe') :
      SiteMoves cfg s (s.put p probe')

theorem siteMoves_of_leave {cfg : HealthSettings} {s s' : Site π} {r : Nat} {next : Turn}
    (hnext : ∀ polled, next ≠ .beating polled) (h : s.leave cfg r next = some s') : SiteMoves cfg s s' := by
  unfold Site.leave at h
  split at h
  · next i hr =>
    obtain ⟨v, hv, rfl⟩ := Option.map_eq_some_iff.mp h
    obtain ⟨outbox, ha, rfl⟩ := Option.map_eq_some_iff.mp hv
    exact .turn (.inr ha) hnext
  · cases h
  · cases h
  · rw [← Option.some.inj h]
    exact @SiteMoves.turn _ cfg s .connect r next s.outbox (.inl rfl) hnext

theorem siteMoves_of_step {cfg : HealthSettings} {s s' : Site π} {a : SiteAction π}
    (h : (site cfg).step s a = some s') : SiteMoves cfg s s' := by
  cases a with
  | outbox a =>
    simp only [site] at h
    split at h
    · obtain ⟨outbox, ha, rfl⟩ := Option.map_eq_some_iff.mp h
      exact .outbox ha
    · cases h
  | start =>
    rw [← Option.some.inj h]
    exact .start
  | poll r i ids =>
    simp only [site] at h
    split at h
    · obtain ⟨v, hv, rfl⟩ := Option.map_eq_some_iff.mp h
      obtain ⟨outbox, ha, rfl⟩ := Option.map_eq_some_iff.mp hv
      exact .turn (.inr ha) (by simp)
    · cases h
  | enqueue r answer =>
    simp only [site] at h
    split at h
    · obtain ⟨outbox, ha, rfl⟩ := Option.map_eq_some_iff.mp h
      exact .outbox ha
    · cases h
  | commit r =>
    simp only [site] at h
    split at h
    · obtain ⟨v, hv, rfl⟩ := Option.map_eq_some_iff.mp h
      obtain ⟨outbox, ha, rfl⟩ := Option.map_eq_some_iff.mp hv
      exact .commit ha
    · cases h
  | beat r =>
    simp only [site] at h
    split at h
    · next polled hr =>
      rw [← Option.some.inj h]
      exact .beat hr
    · cases h
  | fail r => exact siteMoves_of_leave (by simp) h
  | stop r => exact siteMoves_of_leave (by simp) h
  | loseKeys =>
    rw [← Option.some.inj h]
    exact .loseKeys
  | register workers =>
    rw [← Option.some.inj h]
    exact .register
  | probe =>
    rw [← Option.some.inj h]
    exact .probe
  | info p =>
    simp only [site] at h
    split at h
    · next hp =>
      rw [← Option.some.inj h]
      exact .check hp .info
    · cases h
  | heartbeat p =>
    simp only [site] at h
    split at h
    · next hp =>
      rw [← Option.some.inj h]
      exact .check hp .heartbeat
    · cases h
  | query p =>
    simp only [site] at h
    split at h
    · next hp =>
      rw [← Option.some.inj h]
      exact .check hp .query
    · cases h
  | clock p =>
    simp only [site] at h
    split at h
    · next hp =>
      rw [← Option.some.inj h]
      exact .check hp .clock
    · cases h
  | raise p check err =>
    obtain ⟨probe', hbind, rfl⟩ := Option.map_eq_some_iff.mp h
    obtain ⟨probe, hp, hraise⟩ := Option.bind_eq_some_iff.mp hbind
    exact .check hp (.raise hraise)

theorem now_of_moves {cfg : OutboxSettings} {s s' : State π} {a : Action π} (h : Moves cfg s a s') :
    s.now ≤ s'.now := by
  cases h with
  | @enqueue i answer row todo done hi =>
    have hnow : (s.enqueueTask row).now = s.now := by
      unfold State.enqueueTask
      split <;> rfl
    cases answer with
    | returns => exact hnow.ge
    | raises err queued =>
      cases queued with
      | false => exact le_refl _
      | true => exact hnow.ge
  | tick => exact Int.le_add_of_nonneg_right (Int.natCast_nonneg _)
  | _ => exact le_refl _

/-- The outbox of the site takes a step of its own or stays. -/
theorem SiteMoves.outbox_step {cfg : HealthSettings} {s s' : Site π} (h : SiteMoves cfg s s') :
    s'.outbox = s.outbox ∨ ∃ a, (machine cfg.toOutboxSettings).step s.outbox a = some s'.outbox := by
  cases h with
  | outbox ha => exact .inr ⟨_, ha⟩
  | turn ha hnext => exact ha.imp id (fun ha => ⟨_, ha⟩)
  | commit ha => exact .inr ⟨_, ha⟩
  | _ => exact .inl rfl

theorem SiteMoves.now_le {cfg : HealthSettings} {s s' : Site π} (h : SiteMoves cfg s s') :
    s.outbox.now ≤ s'.outbox.now := by
  rcases h.outbox_step with hsame | ⟨a, ha⟩
  · rw [hsame]
  · exact now_of_moves (moves_of_step ha)

theorem now_le_of_reaches {cfg : HealthSettings} {s s' : Site π} (h : (site cfg).Reaches s s') :
    s.outbox.now ≤ s'.outbox.now :=
  h.invariant (J := fun v => s.outbox.now ≤ v.outbox.now)
    (fun _ _ _ hv _ ha => hv.trans (siteMoves_of_step ha).now_le) (le_refl _)

/-! The heartbeat: the key is there as long as the newest one is fresh. -/

structure Beats (cfg : HealthSettings) (s : Site π) : Prop where
  polls : ∀ t ∈ s.polls, t ≤ s.outbox.now
  turns : ∀ polled, .beating polled ∈ s.relays → polled ∈ s.polls
  beats : ∀ b ∈ s.beats, b.polled ∈ s.polls ∧ b.polled ≤ b.moment ∧ b.moment ≤ s.outbox.now
  kept : ∀ x, s.redis relayHeartbeatKey = some x → ∃ b ∈ s.beats, x.deadline = some (b.moment + cfg.ttl)
  fresh : ∀ b ∈ s.beats, ∃ x deadline, s.redis relayHeartbeatKey = some x ∧ x.deadline = some deadline ∧
    b.moment + cfg.ttl ≤ deadline

theorem Beats.init (cfg : HealthSettings) (now : Time) : Beats cfg (Site.init now : Site π) := by
  refine ⟨?_, ?_, ?_, ?_, ?_⟩ <;> simp [Site.init]

/-- A step that neither polls nor beats. -/
theorem Beats.of_same {cfg : HealthSettings} {s s' : Site π} (hs : Beats cfg s) (hnow : s.outbox.now ≤ s'.outbox.now)
    (hturns : ∀ polled, .beating polled ∈ s'.relays → .beating polled ∈ s.relays)
    (hredis : s'.redis = s.redis) (hpolls : s'.polls = s.polls) (hbeats : s'.beats = s.beats) : Beats cfg s' := by
  refine ⟨?_, ?_, ?_, ?_, ?_⟩
  · rw [hpolls]
    exact fun t ht => (hs.polls t ht).trans hnow
  · rw [hpolls]
    exact fun polled hmem => hs.turns polled (hturns polled hmem)
  · rw [hpolls, hbeats]
    intro b hb
    obtain ⟨hpolled, hle, hmoment⟩ := hs.beats b hb
    exact ⟨hpolled, hle, hmoment.trans hnow⟩
  · rw [hredis, hbeats]
    exact hs.kept
  · rw [hredis, hbeats]
    exact hs.fresh

theorem mem_relays_of_turn {s : Site π} {r : Nat} {next : Turn} {polled : Time}
    (h : .beating polled ∈ (s.turn r next).relays) : .beating polled ∈ s.relays ∨ next = .beating polled :=
  (List.mem_or_eq_of_mem_set h).imp id Eq.symm

theorem Beats.moves {cfg : HealthSettings} {s s' : Site π} (hs : Beats cfg s) (h : SiteMoves cfg s s') :
    Beats cfg s' := by
  have hnow := h.now_le
  cases h with
  | outbox ha => exact hs.of_same hnow (fun _ h => h) rfl rfl rfl
  | turn ha hnext =>
    refine hs.of_same hnow ?_ rfl rfl rfl
    exact fun polled hmem => (mem_relays_of_turn hmem).resolve_right (hnext polled)
  | start =>
    refine hs.of_same hnow ?_ rfl rfl rfl
    intro polled hmem
    simpa using hmem
  | @commit r i outbox ha =>
    refine ⟨?_, ?_, ?_, hs.kept, hs.fresh⟩
    · intro t ht
      rcases List.mem_cons.mp ht with rfl | hold
      · exact le_refl _
      · exact (hs.polls t hold).trans hnow
    · intro polled hmem
      rcases mem_relays_of_turn hmem with hold | hnext
      · exact List.mem_cons_of_mem _ (hs.turns polled hold)
      · rw [Turn.beating.inj hnext]
        exact List.mem_cons_self
    · intro b hb
      obtain ⟨hpolled, hle, hmoment⟩ := hs.beats b hb
      exact ⟨List.mem_cons_of_mem _ hpolled, hle, hmoment.trans hnow⟩
  | @beat r polled hr =>
    have hpolled := hs.turns polled (List.mem_of_getElem? hr)
    have hset : setEx s.redis s.outbox.now relayHeartbeatKey "1" cfg.ttl relayHeartbeatKey =
        some ⟨"1", some (s.outbox.now + cfg.ttl)⟩ := by
      simp [setEx, cfg.ttl_pos]
    refine ⟨hs.polls, ?_, ?_, ?_, ?_⟩
    · intro polled' hmem
      rcases mem_relays_of_turn hmem with hold | hnext
      · exact hs.turns polled' hold
      · cases hnext
    · intro b hb
      rcases List.mem_cons.mp hb with rfl | hold
      · exact ⟨hpolled, hs.polls polled hpolled, le_refl _⟩
      · exact hs.beats b hold
    · intro x hx
      obtain rfl := Option.some.inj (hset.symm.trans hx)
      exact ⟨_, List.mem_cons_self, rfl⟩
    · -- a later heartbeat only puts the deadline off
      intro b hb
      refine ⟨_, _, hset, rfl, ?_⟩
      rcases List.mem_cons.mp hb with rfl | hold
      · exact le_refl _
      · exact Int.add_le_add_right (hs.beats b hold).2.2 _
  | loseKeys => exact ⟨hs.polls, hs.turns, by simp, by simp, by simp⟩
  | register => exact hs.of_same hnow (fun _ h => h) rfl rfl rfl
  | probe => exact hs.of_same hnow (fun _ h => h) rfl rfl rfl
  | check hp hcheck => exact hs.of_same hnow (fun _ h => h) rfl rfl rfl

/-- A relay has committed a poll and then set a heartbeat that has not expired. -/
def Site.Beating (cfg : HealthSettings) (s : Site π) : Prop :=
  ∃ b ∈ s.beats, b.polled ∈ s.polls ∧ b.polled ≤ b.moment ∧ b.moment ≤ s.outbox.now ∧
    s.outbox.now < b.moment + cfg.ttl

/-- Every heartbeat that Redis had has expired. -/
def Site.Silent (cfg : HealthSettings) (s : Site π) : Prop := ∀ b ∈ s.beats, b.moment + cfg.ttl ≤ s.outbox.now

theorem Beats.check {cfg : HealthSettings} {s : Site π} (hs : Beats cfg s) :
    (s.checkRelayHeartbeat = .returned → s.Beating cfg) ∧
      ∀ text, s.checkRelayHeartbeat = .refused text → s.Silent cfg := by
  unfold Site.checkRelayHeartbeat
  constructor
  · intro hreturned
    split at hreturned
    · next hread =>
      obtain ⟨x, hx⟩ := Option.isSome_iff_exists.mp hread
      obtain ⟨hkey, hlive⟩ := read_eq_some.mp hx
      obtain ⟨b, hb, hdeadline⟩ := hs.kept x hkey
      obtain ⟨hpolled, hle, hmoment⟩ := hs.beats b hb
      refine ⟨b, hb, hpolled, hle, hmoment, ?_⟩
      simpa [Expiring.liveAt, hdeadline] using hlive
    · cases hreturned
  · intro text hrefused b hb
    split at hrefused
    · cases hrefused
    · next hread =>
      obtain ⟨x, deadline, hkey, hdeadline, hle⟩ := hs.fresh b hb
      by_contra hlate
      refine hread ?_
      rw [read_eq_some.mpr ⟨hkey, ?_⟩]
      · rfl
      · simp only [Expiring.liveAt, hdeadline, Option.all_some, decide_eq_true_eq]
        exact (not_le.mp hlate).trans_le hle

end Outbox
end FastiKit
