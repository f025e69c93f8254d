import FastiKit.Auth.Entities
import FastiKit.Language.Json
import FastiKit.Language.Keywords
import FastiKit.Interleave.Machine
import FastiKit.Relational.Sessions
import FastiKit.Relational.Table

/- The dead-letter queue: jobs that failed for good, kept as rows an operator can
   retry, delete or purge.

   Correspondence (Python ↔ Lean):
     `DeadLetterJobModel`                          ↔ `DeadLetterJob`
     `DeadLetterJobRepository.record`              ↔ `Action.record`, `Action.commit`
     `DeadLetterJobRepository.retry`               ↔ `Action.claim`, `Action.stageAdd`, `Action.commit`
     `DeadLetterJobRepository.delete`              ↔ `Action.get`, `Action.delete`, `Action.commit`
     `DeadLetterJobRepository.purge`               ↔ `Action.purge`, `Action.commit`
     `DeadLetterJobService.purge`                  ↔ the guard of `Action.purge`
     `cleanup_dead_letter_task`                    ↔ `Removal.cleanup`
   One action is one statement of one session. A statement that would write a row
   another session has written waits for that session's end; `Action.fail` is a
   statement or a commit that raises, and the rollback. The listing of the rows,
   and the reads that choose an error's text, write nothing and are left out. -/
namespace FastiKit

open Interleave Relational

/-- A row, with keyword arguments of JSON values `ν`. -/
structure DeadLetterJob (ν : Type) where
  id : Uuid
  jobKey : String
  function : String
  queueName : String
  kwargs : Keyword.Args ν
  status : String
  error : Option String
  attempts : Nat
  failedAt : Time
  retriedAt : Option Time

namespace DeadLetterJob
variable {ν : Type}

/-- The row the claim of a retry returns. -/
def retried (now : Time) (row : DeadLetterJob ν) : DeadLetterJob ν := { row with retriedAt := some now }

/-- `stage_add(model.function, {"kwargs": model.kwargs})`, where `dict` makes a value of a
dictionary. -/
def retryEvent (dict : Keyword.Args ν → ν) (row : DeadLetterJob ν) (id : Uuid) (now : Time) :
    OutboxEvent (Keyword.Args ν) :=
  OutboxEvent.new id row.function ⟨[("kwargs", dict row.kwargs)], by simp⟩ now

end DeadLetterJob

namespace DeadLetter

/-- The arguments of `record`. -/
structure Recorded (ν : Type) where
  jobKey : String
  function : String
  queueName : String
  kwargs : Keyword.Args ν
  status : String
  error : Option String
  attempts : Nat

def Recorded.row {ν : Type} (data : Recorded ν) (id : Uuid) (now : Time) : DeadLetterJob ν :=
  { id, jobKey := data.jobKey, function := data.function, queueName := data.queueName, kwargs := data.kwargs,
    status := data.status, error := data.error, attempts := data.attempts, failedAt := now, retriedAt := none }

/-- Keyword arguments in JSON. -/
abbrev Kwargs := Keyword.Args Json

/-- The dictionary as a value. -/
def Kwargs.json (kwargs : Kwargs) : Json := .object kwargs.rows

/-- What removed a row. -/
inductive Removal where
  | delete
  | purge (before : Option Time) (onlyRetried : Bool)
  deriving DecidableEq, Repr

namespace Removal

/-- `purge(before=cutoff, only_retried=True)` -/
def cleanup (cutoff : Time) : Removal := .purge (some cutoff) true

/-- The removal is restricted to the rows that were retried. -/
def onlyRetriedRows : Removal → Bool
  | delete => false
  | purge _ onlyRetried => onlyRetried

end Removal

/-- The WHERE clause of the purge. -/
def purged (before : Option Time) (onlyRetried : Bool) (row : DeadLetterJob Json) : Bool :=
  before.all (fun before => decide (row.failedAt < before)) && (!onlyRetried || row.retriedAt.isSome)

abbrev Jobs := Table Uuid (DeadLetterJob Json) DeadLetterJob.id

/-- What a database session has done since its last commit. -/
inductive Session where
  | idle
  | recording (row : DeadLetterJob Json)
  | claiming (row : DeadLetterJob Json)
  | retrying (row : DeadLetterJob Json) (event : OutboxEvent Kwargs)
  | found (id : Uuid)
  | removing (how : Removal) (victims : List (DeadLetterJob Json))

instance : Inhabited Session := ⟨.idle⟩

/-- The rows the session has written. -/
def Session.written : Session → List Uuid
  | idle => []
  | recording row => [row.id]
  | claiming row => [row.id]
  | retrying row _ => [row.id]
  | found _ => []
  | removing _ victims => victims.map DeadLetterJob.id

/-- The tables and the sessions. The last two fields record every event a retry
committed, with the row it is for, and every row that was removed, as it was. -/
structure State where
  now : Time
  uuids : Uuid
  jobs : Jobs
  events : Table Uuid (OutboxEvent Kwargs) OutboxEvent.id
  sessions : List Session
  forwarded : List (Uuid × OutboxEvent Kwargs)
  removed : List (Removal × DeadLetterJob Json)

inductive Action where
  | connect
  | record (i : Nat) (data : Recorded Json)
  | claim (i : Nat) (jobId : Uuid)
  | stageAdd (i : Nat)
  | get (i : Nat) (jobId : Uuid)
  | delete (i : Nat)
  | purge (i : Nat) (before : Option Time) (onlyRetried : Bool)
  | commit (i : Nat)
  | fail (i : Nat)
  | tick (elapsed : Nat)

namespace State

def init (now : Time) : State := ⟨now, 0, .empty, .empty, [], [], []⟩

def put (s : State) (i : Nat) (session : Session) : State :=
  { s with sessions := s.sessions.set i session }

/-- Another session's write keeps the row locked. -/
def isLocked (s : State) (row : DeadLetterJob Json) : Bool :=
  s.sessions.any (fun session => session.written.contains row.id)

/-- A DELETE waits until none of its rows is locked. -/
def remove (s : State) (i : Nat) (how : Removal) (victims : List (DeadLetterJob Json)) : Option State :=
  if victims.any s.isLocked then none else some (s.put i (.removing how victims))

/-- The commit of the session `i`. A key that is taken raises, and rolls back. -/
def commit (s : State) (i : Nat) : Session → Option State
  | .recording row =>
    match s.jobs.insert row with
    | some jobs => some { s.put i .idle with jobs }
    | none => some (s.put i .idle)
  | .retrying row event =>
    match s.events.insert event with
    | some events =>
      some { s.put i .idle with
        jobs := s.jobs.updateWhere (fun old => old.id = row.id) (fun old => { old with retriedAt := row.retriedAt })
          (fun _ => rfl)
        events
        forwarded := (row.id, event) :: s.forwarded }
    | none => some (s.put i .idle)
  | .removing how victims =>
    some { s.put i .idle with
      jobs := s.jobs.deleteWhere (fun row => (victims.map DeadLetterJob.id).contains row.id)
      removed := victims.map (fun row => (how, row)) ++ s.removed }
  | _ => none

end State

def machine : Machine State Action where
  step s
    | .connect => some { s with sessions := s.sessions ++ [.idle] }
    | .record i data =>
      match s.sessions[i]? with
      | some .idle => some { s.put i (.recording (data.row s.uuids s.now)) with uuids := s.uuids + 1 }
      | _ => none
    | .claim i jobId =>
      match s.sessions[i]? with
      | some .idle =>
        match (s.jobs.get jobId).filter (fun row => row.retriedAt.isNone) with
        | none => some s
        | some row => if s.isLocked row then none else some (s.put i (.claiming (row.retried s.now)))
      | _ => none
    | .stageAdd i =>
      match s.sessions[i]? with
      | some (.claiming row) =>
        some { s.put i (.retrying row (row.retryEvent Kwargs.json s.uuids s.now)) with uuids := s.uuids + 1 }
      | _ => none
    | .get i jobId =>
      match s.sessions[i]? with
      | some .idle => if (s.jobs.get jobId).isNone then some s else some (s.put i (.found jobId))
      | _ => none
    | .delete i =>
      match s.sessions[i]? with
      | some (.found id) => s.remove i .delete (s.jobs.get id).toList
      | _ => none
    | .purge i before onlyRetried =>
      match s.sessions[i]? with
      | some .idle =>
        if before.isNone && !onlyRetried then none
        else s.remove i (.purge before onlyRetried) (s.jobs.rows.filter (purged before onlyRetried))
      | _ => none
    | .commit i => s.sessions[i]?.bind (s.commit i)
    | .fail i => if i < s.sessions.length then some (s.put i .idle) else none
    | .tick elapsed => some { s with now := s.now + elapsed }

/-! What each action does, read once off the machine. -/

/-- What a step of the machine is. -/
inductive Moves (s : State) : Action → State → Prop where
  | connect : Moves s .connect { s with sessions := s.sessions ++ [.idle] }
  | record {i : Nat} {data : Recorded Json} (hi : s.sessions[i]? = some .idle) :
      Moves s (.record i data) { s.put i (.recording (data.row s.uuids s.now)) with uuids := s.uuids + 1 }
  | claim {i : Nat} {row : DeadLetterJob Json} (hi : s.sessions[i]? = some .idle)
      (hrow : s.jobs.get row.id = some row) (hnew : row.retriedAt = none) (hfree : s.isLocked row = false) :
      Moves s (.claim i row.id) (s.put i (.claiming (row.retried s.now)))
  | stageAdd {i : Nat} {row : DeadLetterJob Json} (hi : s.sessions[i]? = some (.claiming row)) :
      Moves s (.stageAdd i)
        { s.put i (.retrying row (row.retryEvent Kwargs.json s.uuids s.now)) with uuids := s.uuids + 1 }
  | get {i : Nat} {jobId : Uuid} (hi : s.sessions[i]? = some .idle) :
      Moves s (.get i jobId) (s.put i (.found jobId))
  | remove {i : Nat} {a : Action} {session : Session} {how : Removal} {victims : List (DeadLetterJob Json)}
      (hi : s.sessions[i]? = some session) (hfree : session.written = [])
      (hvictims : ∀ row ∈ victims, s.jobs.get row.id = some row ∧ s.isLocked row = false ∧
        (how.onlyRetriedRows = true → row.retriedAt.isSome = true)) :
      Moves s a (s.put i (.removing how victims))
  | commitRecorded {i : Nat} {row : DeadLetterJob Json} {jobs : Jobs} (hi : s.sessions[i]? = some (.recording row))
      (hins : s.jobs.insert row = some jobs) : Moves s (.commit i) { s.put i .idle with jobs }
  | commitRetried {i : Nat} {row : DeadLetterJob Json} {event : OutboxEvent Kwargs}
      {events : Table Uuid (OutboxEvent Kwargs) OutboxEvent.id}
      (hi : s.sessions[i]? = some (.retrying row event)) (hins : s.events.insert event = some events) :
      Moves s (.commit i)
        { s.put i .idle with
          jobs := s.jobs.updateWhere (fun old => old.id = row.id)
            (fun old => { old with retriedAt := row.retriedAt }) (fun _ => rfl)
          events
          forwarded := (row.id, event) :: s.forwarded }
  | commitRemoved {i : Nat} {how : Removal} {victims : List (DeadLetterJob Json)}
      (hi : s.sessions[i]? = some (.removing how victims)) :
      Moves s (.commit i)
        { s.put i .idle with
          jobs := s.jobs.deleteWhere (fun row => (victims.map DeadLetterJob.id).contains row.id)
          removed := victims.map (fun row => (how, row)) ++ s.removed }
  | rollback {i : Nat} {a : Action} {session : Session} (hi : s.sessions[i]? = some session) :
      Moves s a (s.put i .idle)
  | nothing {a : Action} : Moves s a s
  | tick {elapsed : Nat} : Moves s (.tick elapsed) { s with now := s.now + elapsed }

theorem moves_of_remove {s s' : State} {i : Nat} {a : Action} {session : Session} {how : Removal}
    {victims : List (DeadLetterJob Json)} (hi : s.sessions[i]? = some session) (hfree : session.written = [])
    (hvictims : ∀ row ∈ victims, s.jobs.get row.id = some row ∧
      (how.onlyRetriedRows = true → row.retriedAt.isSome = true))
    (h : s.remove i how victims = some s') : Moves s a s' := by
  unfold State.remove at h
  split at h
  · cases h
  · next hlocked =>
    rw [← Option.some.inj h]
    refine .remove hi hfree ?_
    intro row hrow
    obtain ⟨hget, hretried⟩ := hvictims row hrow
    refine ⟨hget, ?_, hretried⟩
    cases hrowlocked : s.isLocked row with
    | false => rfl
    | true => exact absurd (List.any_eq_true.mpr ⟨row, hrow, hrowlocked⟩) hlocked

theorem moves_of_commit {s s' : State} {i : Nat} {session : Session} (hi : s.sessions[i]? = some session)
    (h : s.commit i session = some s') : Moves s (.commit i) s' := by
  unfold State.commit at h
  split at h
  · split at h
    · next hins =>
      rw [← Option.some.inj h]
      exact .commitRecorded hi hins
    · rw [← Option.some.inj h]
      exact .rollback hi
  · split at h
    · next hins =>
      rw [← Option.some.inj h]
      exact .commitRetried hi hins
    · rw [← Option.some.inj h]
      exact .rollback hi
  · rw [← Option.some.inj h]
    exact .commitRemoved hi
  · cases h

theorem moves_of_step {s s' : State} {a : Action} (h : machine.step s a = some s') : Moves s a s' := by
  cases a with
  | connect =>
    rw [← Option.some.inj h]
    exact .connect
  | record i data =>
    simp only [machine] at h
    split at h
    · next hi =>
      rw [← Option.some.inj h]
      exact .record hi
    · cases h
  | claim i jobId =>
    simp only [machine] at h
    split at h
    · next hi =>
      split at h
      · rw [← Option.some.inj h]
        exact .nothing
      · next row hclaimed =>
        obtain ⟨hrow, hnew⟩ := Option.filter_eq_some_iff.mp hclaimed
        have hkey : row.id = jobId := Table.get_key hrow
        split at h
        · cases h
        · next hfree =>
          rw [← Option.some.inj h, ← hkey]
          exact .claim hi (hkey ▸ hrow) (Option.isNone_iff_eq_none.mp hnew) (by simpa using hfree)
    · cases h
  | stageAdd i =>
    simp only [machine] at h
    split at h
    · next hi =>
      rw [← Option.some.inj h]
      exact .stageAdd hi
    · cases h
  | get i jobId =>
    simp only [machine] at h
    split at h
    · next hi =>
      split at h
      · rw [← Option.some.inj h]
        exact .nothing
      · rw [← Option.some.inj h]
        exact .get hi
    · cases h
  | delete i =>
    simp only [machine] at h
    split at h
    · next id hi =>
      refine moves_of_remove hi rfl ?_ h
      intro row hrow
      have hget : s.jobs.get id = some row := Option.mem_toList.mp hrow
      exact ⟨Table.get_of_mem (Table.mem_of_get hget), fun h => by cases h⟩
    · cases h
  | purge i before onlyRetried =>
    simp only [machine] at h
    split at h
    · next hi =>
      split at h
      · cases h
      · refine moves_of_remove hi rfl ?_ h
        intro row hrow
        obtain ⟨hmem, hpurged⟩ := List.mem_filter.mp hrow
        refine ⟨Table.get_of_mem hmem, ?_⟩
        intro honly
        cases honly
        simpa [purged] using (Bool.and_eq_true _ _ ▸ hpurged).2
    · cases h
  | commit i =>
    obtain ⟨session, hi, hcommit⟩ := Option.bind_eq_some_iff.mp h
    exact moves_of_commit hi hcommit
  | fail i =>
    simp only [machine] at h
    split at h
    · next hi =>
      rw [← Option.some.inj h]
      exact .rollback (List.getElem?_eq_getElem hi)
    · cases h
  | tick elapsed =>
    rw [← Option.some.inj h]
    exact .tick

end DeadLetter
end FastiKit
