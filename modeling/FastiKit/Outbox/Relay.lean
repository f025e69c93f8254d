import FastiKit.Auth.Entities
import FastiKit.Interleave.Machine
import FastiKit.Relational.Table

/- The transactional outbox: producers stage events in their transactions, relays
   hand the committed ones to the job queue, a cleanup deletes the old ones.

   Correspondence (Python ↔ Lean):
     `OutboxRepository.stage_add`              ↔ `Action.stageAdd`
     `transaction`, `db.commit()`              ↔ `Action.commit`, `Action.close`
     `dispatch_pending`                        ↔ `Action.select`, `Action.enqueue`, `Action.commit`
     `enqueue_task`, SAQ's `Queue.enqueue`     ↔ `State.enqueueTask`
     `cleanup_dispatched`                      ↔ `Action.delete`, `Action.commit`
   A database session is used by one party at a time; what it holds is not in the
   table before the commit. `Action.close` is every other end of a session: a
   rollback, a commit that fails, a cancelled or a dead process. -/
namespace FastiKit

open Interleave Relational

/-- The settings the relay and the cleanup read. -/
structure OutboxSettings where
  outboxMaxAttempts : Nat
  outboxRetention : Time

namespace Outbox

/-- `f"outbox:{row.id}"` -/
def jobKey (id : Uuid) : String := "outbox:" ++ toString id

theorem jobKey_injective {id id' : Uuid} (h : jobKey id = jobKey id') : id = id' :=
  uuid_toString_injective ((String.append_right_inj _).mp h)

/-- What `enqueue_task` gives the queue. -/
structure Job (π : Type) where
  key : String
  function : String
  payload : π
  deriving DecidableEq, Repr

end Outbox

namespace OutboxEvent
variable {π : Type}

/-- `enqueue_task(row.task_name, key=f"outbox:{row.id}", **row.payload)` -/
def job (row : OutboxEvent π) : Outbox.Job π := ⟨Outbox.jobKey row.id, row.taskName, row.payload⟩

/-- The row after its job could not be enqueued; `err` is the text of the error. -/
def attemptFailed (maxAttempts : Nat) (err : String) (now : Time) (row : OutboxEvent π) : OutboxEvent π :=
  let attempts := row.attempts + 1
  { row with
    attempts
    lastError := some (String.ofList (err.toList.take 1000))
    failedAt := if maxAttempts ≤ attempts then some now else row.failedAt }

/-- What a flush writes of a row the session changed. -/
def flush (row old : OutboxEvent π) : OutboxEvent π :=
  { old with
    dispatchedAt := row.dispatchedAt
    failedAt := row.failedAt
    attempts := row.attempts
    lastError := row.lastError }

@[simp] theorem dispatched_job (now : Time) (row : OutboxEvent π) : (row.dispatched now).job = row.job := rfl

@[simp] theorem attemptFailed_id (maxAttempts : Nat) (err : String) (now : Time) (row : OutboxEvent π) :
    (row.attemptFailed maxAttempts err now).id = row.id := rfl

@[simp] theorem attemptFailed_job (maxAttempts : Nat) (err : String) (now : Time) (row : OutboxEvent π) :
    (row.attemptFailed maxAttempts err now).job = row.job := rfl

@[simp] theorem flush_job (row old : OutboxEvent π) : (row.flush old).job = old.job := rfl

@[simp] theorem flush_dispatchedAt (row old : OutboxEvent π) :
    (row.flush old).dispatchedAt = row.dispatchedAt := rfl

end OutboxEvent

namespace Outbox
variable {π : Type}

/-- The table `outbox_events`. -/
abbrev Events (π : Type) := Table Uuid (OutboxEvent π) OutboxEvent.id

/-- The changed row of that id, if the session changed it. -/
def changed (rows : List (OutboxEvent π)) (id : Uuid) : Option (OutboxEvent π) :=
  rows.find? (fun row => row.id = id)

/-- The row as the flush of a session leaves it. -/
def flushInto (rows : List (OutboxEvent π)) (old : OutboxEvent π) : OutboxEvent π :=
  (changed rows old.id).elim old (fun row => row.flush old)

theorem flushInto_id (rows : List (OutboxEvent π)) (old : OutboxEvent π) : (flushInto rows old).id = old.id := by
  unfold flushInto
  cases changed rows old.id <;> rfl

/-- The flush of all the rows a session changed. -/
def flushAll (rows : List (OutboxEvent π)) (events : Events π) : Events π :=
  events.updateWhere (fun old => (changed rows old.id).isSome) (flushInto rows) (flushInto_id rows)

theorem mem_of_changed {rows : List (OutboxEvent π)} {id : Uuid} {row : OutboxEvent π}
    (h : changed rows id = some row) : row ∈ rows ∧ row.id = id :=
  ⟨List.mem_of_find?_eq_some h, by simpa [changed] using List.find?_some h⟩

theorem changed_of_mem {rows : List (OutboxEvent π)} (hnodup : (rows.map OutboxEvent.id).Nodup)
    {row : OutboxEvent π} (h : row ∈ rows) : changed rows row.id = some row :=
  Table.get_of_mem (t := ⟨rows, hnodup⟩) h

theorem changed_eq_none {rows : List (OutboxEvent π)} {id : Uuid} :
    changed rows id = none ↔ id ∉ rows.map OutboxEvent.id := by
  simp [changed]

theorem get_flushAll (rows : List (OutboxEvent π)) (events : Events π) (id : Uuid) :
    (flushAll rows events).get id = (events.get id).map (flushInto rows) := by
  unfold flushAll
  rw [Table.get_updateWhere]
  congr 1
  funext old
  unfold flushInto
  cases changed rows old.id <;> rfl

/-- The rows the session did not change are as they were. -/
theorem get_flushAll_of_not_mem {rows : List (OutboxEvent π)} {events : Events π} {id : Uuid}
    (hid : id ∉ rows.map OutboxEvent.id) : (flushAll rows events).get id = events.get id := by
  rw [get_flushAll]
  cases hget : events.get id with
  | none => rfl
  | some old =>
    have hkey : old.id = id := Table.get_key hget
    rw [Option.map_some, flushInto, hkey, changed_eq_none.mpr hid, Option.elim_none]

/-- What a database session has done since its last commit. A relay's rows are
locked from the select on, a cleanup's from the DELETE on. -/
inductive Session (π : Type) where
  | idle
  | staging (events : List (OutboxEvent π))
  | dispatching (todo done : List (OutboxEvent π))
  | cleaning (victims : List Uuid)

instance : Inhabited (Session π) := ⟨.idle⟩

namespace Session

/-- The events a producer has added, if the session can be a producer's. -/
def staged : Session π → Option (List (OutboxEvent π))
  | idle => some []
  | staging events => some events
  | _ => none

/-- The rows of the table the session holds locks on. -/
def locked : Session π → List Uuid
  | dispatching todo done => (done ++ todo).map OutboxEvent.id
  | cleaning victims => victims
  | _ => []

end Session

/-- The table, the sessions and the queue. The last four fields record what was
ever committed by a producer, every job ever put in the queue, and the row of
every enqueue call that returned or that failed after the job was put. -/
structure State (π : Type) where
  now : Time
  uuids : Uuid
  events : Events π
  sessions : List (Session π)
  queued : List String
  committed : List (OutboxEvent π)
  enqueued : List (Job π)
  returned : List Uuid
  lost : List Uuid

/-- How an enqueue call ends. A call that raises may have put its job. -/
inductive Answer where
  | returns
  | raises (err : String) (queued : Bool)
  deriving DecidableEq, Repr

inductive Action (π : Type) where
  | connect
  | stageAdd (i : Nat) (taskName : String) (payload : π)
  | select (i batchSize : Nat) (ids : List Uuid)
  | enqueue (i : Nat) (answer : Answer)
  | delete (i : Nat)
  | commit (i : Nat)
  | close (i : Nat)
  | finish (key : String)
  | tick (elapsed : Nat)

namespace State

def init (now : Time) : State π := ⟨now, 0, .empty, [], [], [], [], [], []⟩

def put (s : State π) (i : Nat) (session : Session π) : State π :=
  { s with sessions := s.sessions.set i session }

/-- Some session holds a lock on the row. -/
def isLocked (s : State π) (id : Uuid) : Bool := s.sessions.any (fun session => session.locked.contains id)

/-- SAQ puts a job unless it holds one with that key. -/
def enqueueTask (s : State π) (row : OutboxEvent π) : State π :=
  if s.queued.contains row.job.key then s
  else { s with queued := row.job.key :: s.queued, enqueued := row.job :: s.enqueued }

/-- The body of the loop over the batch: the call, and what it makes of the row. -/
def dispatch (cfg : OutboxSettings) (s : State π) (row : OutboxEvent π) :
    Answer → State π × OutboxEvent π
  | .returns => ({ s.enqueueTask row with returned := row.id :: s.returned }, row.dispatched s.now)
  | .raises err queued =>
    (if queued then { s.enqueueTask row with lost := row.id :: s.lost } else s,
      row.attemptFailed cfg.outboxMaxAttempts err s.now)

/-- `SELECT ... LIMIT batch_size FOR UPDATE SKIP LOCKED` can answer these rows. -/
def selectable (s : State π) (batchSize : Nat) (rows : List (OutboxEvent π)) : Bool :=
  rows.all (fun row => row.pending && !s.isLocked row.id) && decide (rows.map OutboxEvent.id).Nodup &&
    decide (rows.length ≤ batchSize) && decide (rows.Pairwise (fun row row' => row.createdAt ≤ row'.createdAt))

/-- The WHERE clause of the cleanup, at a reading of the clock. -/
def expired (cfg : OutboxSettings) (now : Time) (row : OutboxEvent π) : Bool :=
  row.dispatchedAt.any (fun dispatchedAt => decide (dispatchedAt < now - cfg.outboxRetention))

/-- The commit of the session `i`. -/
def commit (s : State π) (i : Nat) : Session π → Option (State π)
  | .staging staged =>
    match s.events.insertAll staged with
    | some events => some { s.put i .idle with events, committed := staged ++ s.committed }
    | none => some (s.put i .idle)
  | .dispatching [] done => some { s.put i .idle with events := flushAll done s.events }
  | .cleaning victims =>
    some { s.put i .idle with events := s.events.deleteWhere (fun row => victims.contains row.id) }
  | _ => none

end State

/-- The outbox as a machine. A DELETE waits for the locks on the rows it is after. -/
def machine (cfg : OutboxSettings) : Machine (State π) (Action π) where
  step s
    | .connect => some { s with sessions := s.sessions ++ [.idle] }
    | .stageAdd i taskName payload =>
      (s.sessions[i]?.bind Session.staged).map fun staged =>
        { s.put i (.staging (staged ++ [OutboxEvent.new s.uuids taskName payload s.now])) with
          uuids := s.uuids + 1 }
    | .select i batchSize ids =>
      match s.sessions[i]? with
      | some .idle =>
        match ids.mapM s.events.get with
        | some rows => if s.selectable batchSize rows then some (s.put i (.dispatching rows [])) else none
        | none => none
      | _ => none
    | .enqueue i answer =>
      match s.sessions[i]? with
      | some (.dispatching (row :: todo) done) =>
        let (s', row') := s.dispatch cfg row answer
        some (s'.put i (.dispatching todo (done ++ [row'])))
      | _ => none
    | .delete i =>
      match s.sessions[i]? with
      | some .idle =>
        let victims := (s.events.rows.filter (State.expired cfg s.now)).map OutboxEvent.id
        if victims.any s.isLocked then none else some (s.put i (.cleaning victims))
      | _ => none
    | .commit i => s.sessions[i]?.bind (s.commit i)
    | .close i => if i < s.sessions.length then some (s.put i .idle) else none
    | .finish key => some { s with queued := s.queued.filter (fun queued => queued ≠ key) }
    | .tick elapsed => some { s with now := s.now + elapsed }

/-! What each action does, read once off the machine. -/

/-- What a step of the machine is. -/
inductive Moves (cfg : OutboxSettings) (s : State π) : Action π → State π → Prop where
  | connect : Moves cfg s .connect { s with sessions := s.sessions ++ [.idle] }
  | stageAdd {i : Nat} {taskName : String} {payload : π} {session : Session π}
      {staged : List (OutboxEvent π)} (hi : s.sessions[i]? = some session)
      (hstaged : session.staged = some staged) :
      Moves cfg s (.stageAdd i taskName payload)
        { s.put i (.staging (staged ++ [OutboxEvent.new s.uuids taskName payload s.now])) with
          uuids := s.uuids + 1 }
  | select {i batchSize : Nat} {ids : List Uuid} {rows : List (OutboxEvent π)}
      (hi : s.sessions[i]? = some .idle) (hrows : ∀ row ∈ rows, s.events.get row.id = some row)
      (hsel : s.selectable batchSize rows = true) :
      Moves cfg s (.select i batchSize ids) (s.put i (.dispatching rows []))
  | enqueue {i : Nat} {answer : Answer} {row : OutboxEvent π} {todo done : List (OutboxEvent π)}
      (hi : s.sessions[i]? = some (.dispatching (row :: todo) done)) :
      Moves cfg s (.enqueue i answer)
        ((s.dispatch cfg row answer).1.put i (.dispatching todo (done ++ [(s.dispatch cfg row answer).2])))
  | delete {i : Nat} {victims : List Uuid} (hi : s.sessions[i]? = some .idle)
      (hvictims : ∀ id ∈ victims, ∃ row ∈ s.events.rows, row.id = id ∧ State.expired cfg s.now row = true)
      (hfree : ∀ id ∈ victims, s.isLocked id = false) :
      Moves cfg s (.delete i) (s.put i (.cleaning victims))
  | commitStaged {i : Nat} {staged : List (OutboxEvent π)} {events : Events π}
      (hi : s.sessions[i]? = some (.staging staged)) (hins : s.events.insertAll staged = some events) :
      Moves cfg s (.commit i) { s.put i .idle with events, committed := staged ++ s.committed }
  | commitRefused {i : Nat} {staged : List (OutboxEvent π)} (hi : s.sessions[i]? = some (.staging staged)) :
      Moves cfg s (.commit i) (s.put i .idle)
  | commitDispatched {i : Nat} {done : List (OutboxEvent π)}
      (hi : s.sessions[i]? = some (.dispatching [] done)) :
      Moves cfg s (.commit i) { s.put i .idle with events := flushAll done s.events }
  | commitCleaned {i : Nat} {victims : List Uuid} (hi : s.sessions[i]? = some (.cleaning victims)) :
      Moves cfg s (.commit i)
        { s.put i .idle with events := s.events.deleteWhere (fun row => victims.contains row.id) }
  | close {i : Nat} {session : Session π} (hi : s.sessions[i]? = some session) :
      Moves cfg s (.close i) (s.put i .idle)
  | finish {key : String} :
      Moves cfg s (.finish key) { s with queued := s.queued.filter (fun queued => queued ≠ key) }
  | tick {elapsed : Nat} : Moves cfg s (.tick elapsed) { s with now := s.now + elapsed }

theorem rows_of_mapM {events : Events π} {ids : List Uuid} {rows : List (OutboxEvent π)}
    (h : ids.mapM events.get = some rows) : ∀ row ∈ rows, events.get row.id = some row := by
  induction ids generalizing rows with
  | nil =>
    simp only [List.mapM_nil, Option.pure_def, Option.some.injEq] at h
    subst h
    intro row hrow
    cases hrow
  | cons id ids ih =>
    simp only [List.mapM_cons, Option.pure_def, Option.bind_eq_bind, Option.bind_eq_some_iff,
      Option.some.injEq] at h
    obtain ⟨first, hfirst, rest, hrest, rfl⟩ := h
    intro row hrow
    cases List.mem_cons.mp hrow with
    | inl heq => rw [heq, Table.get_key hfirst, hfirst]
    | inr hmem => exact ih hrest row hmem

theorem moves_of_commit {cfg : OutboxSettings} {s s' : State π} {i : Nat} {session : Session π}
    (hi : s.sessions[i]? = some session) (h : s.commit i session = some s') : Moves cfg s (.commit i) s' := by
  unfold State.commit at h
  split at h
  · split at h
    · next events hins =>
      rw [← Option.some.inj h]
      exact .commitStaged hi hins
    · rw [← Option.some.inj h]
      exact .commitRefused hi
  · rw [← Option.some.inj h]
    exact .commitDispatched hi
  · rw [← Option.some.inj h]
    exact .commitCleaned hi
  · cases h

theorem moves_of_step {cfg : OutboxSettings} {s s' : State π} {a : Action π}
    (h : (machine cfg).step s a = some s') : Moves cfg s a s' := by
  cases a with
  | connect =>
    rw [← Option.some.inj h]
    exact .connect
  | stageAdd i taskName payload =>
    obtain ⟨staged, hbind, rfl⟩ := Option.map_eq_some_iff.mp h
    obtain ⟨session, hi, hstaged⟩ := Option.bind_eq_some_iff.mp hbind
    exact .stageAdd hi hstaged
  | select i batchSize ids =>
    simp only [machine] at h
    split at h
    · next hi =>
      split at h
      · next rows hrows =>
        split at h
        · next hsel =>
          rw [← Option.some.inj h]
          exact .select hi (rows_of_mapM hrows) hsel
        · cases h
      · cases h
    · cases h
  | enqueue i answer =>
    simp only [machine] at h
    split at h
    · next row todo done hi =>
      rw [← Option.some.inj h]
      exact .enqueue hi
    · cases h
  | delete i =>
    simp only [machine] at h
    split at h
    · next hi =>
      split at h
      · cases h
      · next hfree =>
        rw [← Option.some.inj h]
        refine .delete hi ?_ ?_
        · intro id hid
          obtain ⟨row, hrow, hkey⟩ := List.mem_map.mp hid
          obtain ⟨hmem, hexp⟩ := List.mem_filter.mp hrow
          exact ⟨row, hmem, hkey, hexp⟩
        · intro id hid
          cases hlocked : s.isLocked id with
          | false => rfl
          | true => exact absurd (List.any_eq_true.mpr ⟨id, hid, hlocked⟩) hfree
    · cases h
  | commit i =>
    obtain ⟨session, hi, hcommit⟩ := Option.bind_eq_some_iff.mp h
    exact moves_of_commit hi hcommit
  | close i =>
    simp only [machine] at h
    split at h
    · next hi =>
      rw [← Option.some.inj h]
      exact .close (List.getElem?_eq_getElem hi)
    · cases h
  | finish key =>
    rw [← Option.some.inj h]
    exact .finish
  | tick elapsed =>
    rw [← Option.some.inj h]
    exact .tick

end Outbox
end FastiKit
