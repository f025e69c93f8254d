import FastiKit.DeadLetter.Repository
import FastiKit.Interleave.Pool

/- The requests of the operators on the dead-letter table, statement by statement.

   Correspondence (Python ↔ Lean):
     `get_db`                                            ↔ `Op.connect`
     the UPDATE of `DeadLetterJobRepository.retry`       ↔ `Op.claim`, with its clock reading
     `DeadLetterJobRepository.get`, `db.get` of `delete` ↔ `Op.get`
     the DELETE of `db.delete(model)`                    ↔ `Op.delete`
     the DELETE of `DeadLetterJobRepository.purge`       ↔ `Op.scan`, `Op.purgeRow`
     the end of `transaction(self.db)`                   ↔ `Op.commit`
     `DeadLetterJobService`                              ↔ `program`
   Between two statements other requests run. A statement sees what is committed when it
   starts; one that would write a row another session has written waits for that
   session's end, and looks at the row again. A DELETE of many rows goes from row to row
   with one view of the table. The event that a retry stages is in another table, and is
   left out. A request whose statement or commit raises is a cancelled one: in either
   case the session is rolled back. -/
namespace FastiKit.DeadLetter.Admin
open Interleave Relational

inductive Request where
  | retryJob (jobId : Uuid) (now : Time)
  | deleteJob (jobId : Uuid)
  | purge (before : Option Time) (onlyRetried : Bool)
  deriving DecidableEq

inductive Response where
  | retried (row : DeadLetterJob Json)
  | deleted
  | purged (count : Nat)

inductive AdminError where
  | notFound (entityName identifier : String)
  | conflict (detail : String)
  | badRequest (detail : String)
  deriving DecidableEq, Repr

/-- What a session has done to a row and not committed. -/
inductive Change where
  | retried (now : Time)
  | deleted
  deriving DecidableEq

/-- What is committed, and the sessions with what they have written. -/
structure State where
  jobs : Jobs
  sessions : List (List (Uuid × Change))

/-- The statements; `c` is the session. -/
inductive Op where
  | connect
  | claim (c : Nat) (jobId : Uuid) (now : Time)
  | get (c : Nat) (jobId : Uuid)
  | delete (c : Nat) (jobId : Uuid)
  | scan (c : Nat) (before : Option Time) (onlyRetried : Bool)
  | purgeRow (c : Nat) (before : Option Time) (onlyRetried : Bool) (jobId : Uuid)
  | commit (c : Nat)

namespace Op

@[reducible] def Res : Op → Type
  | connect => Nat
  | claim _ _ _ => Option (DeadLetterJob Json)
  | get _ _ => Option (DeadLetterJob Json)
  | delete _ _ => Unit
  | scan _ _ _ => List Uuid
  | purgeRow _ _ _ _ => Bool
  | commit _ => Unit

/-- The session of a statement. -/
def session : Op → Option Nat
  | connect => none
  | claim c _ _ => some c
  | get c _ => some c
  | delete c _ => some c
  | scan c _ _ => some c
  | purgeRow c _ _ _ => some c
  | commit c => some c

end Op

theorem retried_id (now : Time) (row : DeadLetterJob Json) : (row.retried now).id = row.id := rfl

/-- The row, if it can be claimed. -/
def claimable (jobs : Jobs) (jobId : Uuid) : Option (DeadLetterJob Json) :=
  (jobs.get jobId).filter (fun row => row.retriedAt.isNone)

/-- A change of a row, committed. -/
def Change.apply (jobs : Jobs) (change : Uuid × Change) : Jobs :=
  match change.2 with
  | .retried now => jobs.updateWhere (fun old => old.id = change.1) (DeadLetterJob.retried now) (retried_id now)
  | .deleted => jobs.deleteWhere (fun row => row.id = change.1)

namespace State

def init (jobs : Jobs) : State := ⟨jobs, []⟩

/-- What the session has written. -/
def written (s : State) (c : Nat) : List (Uuid × Change) := sessionAt s.sessions c

def write (s : State) (c : Nat) (change : Uuid × Change) : State :=
  { s with sessions := s.sessions.set c (s.written c ++ [change]) }

/-- The session has nothing written any more. -/
def clear (s : State) (c : Nat) : State := { s with sessions := s.sessions.set c [] }

/-- Another session has written the row. -/
def locked (s : State) (c : Nat) (jobId : Uuid) : Bool :=
  (List.range s.sessions.length).any (fun c' => c' ≠ c && (s.written c').any (fun change => change.1 = jobId))

end State

def exec : (op : Op) → State → op.Res × State
  | .connect, s => (s.sessions.length, { s with sessions := s.sessions ++ [[]] })
  | .claim c jobId now, s =>
    match claimable s.jobs jobId with
    | none => (none, s)
    | some row => (some (row.retried now), s.write c (jobId, .retried now))
  -- no program reads what its own session has written
  | .get _ jobId, s => (s.jobs.get jobId, s)
  | .delete c jobId, s => ((), if (s.jobs.get jobId).isSome then s.write c (jobId, .deleted) else s)
  | .scan _ before onlyRetried, s => ((s.jobs.rows.filter (purged before onlyRetried)).map DeadLetterJob.id, s)
  | .purgeRow c before onlyRetried jobId, s =>
    if ((s.jobs.get jobId).filter (purged before onlyRetried)).isSome then (true, s.write c (jobId, .deleted))
    else (false, s)
  | .commit c, s => ((), { s.clear c with jobs := (s.written c).foldl Change.apply s.jobs })

/-- The statement waits for the session that has written its row. -/
def blocked (s : State) : Op → Bool
  | .claim c jobId _ => (claimable s.jobs jobId).isSome && s.locked c jobId
  | .delete c jobId => (s.jobs.get jobId).isSome && s.locked c jobId
  | .purgeRow c _ _ jobId => (s.jobs.get jobId).isSome && s.locked c jobId
  | _ => false

abbrev Api (α : Type) := Prog Op Op.Res AdminError α

def api (op : Op) : Api op.Res := Prog.perform op

def notFound (jobId : Uuid) : AdminError := .notFound "Dead-letter job" (toString jobId)

/-- A retry whose claim has found no row. -/
def unclaimed (c : Nat) (jobId : Uuid) : Api Response := do
  match ← (api (.get c jobId) : Api (Option (DeadLetterJob Json))) with
  | none => throw (notFound jobId)
  | some _ => throw (.conflict "job already retried")

/-- A retry after its claim. -/
def claimed (c : Nat) (jobId : Uuid) (model : Option (DeadLetterJob Json)) : Api Response := do
  api (.commit c)
  match model with
  | some row => return .retried row
  | none => unclaimed c jobId

/-- A retry in its session. -/
def retrying (c : Nat) (jobId : Uuid) (now : Time) : Api Response := do
  claimed c jobId (← (api (.claim c jobId now) : Api (Option (DeadLetterJob Json))))

def retryJob (jobId : Uuid) (now : Time) : Api Response := do
  retrying (← (api .connect : Api Nat)) jobId now

/-- A delete whose DELETE is sent. -/
def removed (c : Nat) : Api Response := do
  api (.commit c)
  return .deleted

/-- A delete that has read its row. -/
def found (c : Nat) (jobId : Uuid) : Api Response := do
  api (.delete c jobId)
  removed c

/-- A delete in its session. -/
def deleting (c : Nat) (jobId : Uuid) : Api Response := do
  match ← (api (.get c jobId) : Api (Option (DeadLetterJob Json))) with
  | none => throw (notFound jobId)
  | some _ => found c jobId

def deleteJob (jobId : Uuid) : Api Response := do
  deleting (← (api .connect : Api Nat)) jobId

/-- The DELETE of a purge, which has come to these rows and deleted `count`. -/
def purgeRows (c : Nat) (before : Option Time) (onlyRetried : Bool) (count : Nat) : List Uuid → Api Response
  | [] => do
    api (.commit c)
    return .purged count
  | jobId :: rest => do
    let gone : Bool ← api (.purgeRow c before onlyRetried jobId)
    purgeRows c before onlyRetried (if gone then count + 1 else count) rest

/-- A purge in its session. -/
def purging (c : Nat) (before : Option Time) (onlyRetried : Bool) : Api Response := do
  purgeRows c before onlyRetried 0 (← (api (.scan c before onlyRetried) : Api (List Uuid)))

def purge (before : Option Time) (onlyRetried : Bool) : Api Response :=
  if before.isNone && !onlyRetried then
    throw (.badRequest "Specify 'before' or keep 'only_retried' true to bound the purge")
  else do
    purging (← (api .connect : Api Nat)) before onlyRetried

def program : Request → Api Response
  | .retryJob jobId now => retryJob jobId now
  | .deleteJob jobId => deleteJob jobId
  | .purge before onlyRetried => purge before onlyRetried

/-- The environment's only action is the rollback of a session. -/
def admin : System Op Op.Res State Request AdminError Response Nat where
  exec := exec
  program := program
  accepts _ _ := true
  respond _ _ s := s
  env c s := some (s.clear c)

abbrev Admins := Pool Op Op.Res State Request AdminError Response

/-- A statement that waits does not run, and a session whose request goes on is not
rolled back. -/
def fair (s : Admins) : Interleave.Action Request Nat → Bool
  | .run i => (s.pending i).all (fun op => !blocked s.state op)
  | .env c => s.waiting.all (fun op => op.session ≠ some c)
  | _ => true

/-- A request run alone, and what it leaves committed. -/
def alone (req : Request) (jobs : Jobs) : Except AdminError Response × Jobs :=
  let left := (program req).eval exec (.init jobs)
  (left.1, left.2.jobs)

/-- The DELETE of a delete finds the row that was read, and a purge that commits has
deleted all rows that match then. -/
def orderly (s : Admins) : Interleave.Action Request Nat → Bool
  | .run i =>
    match s.pending i, s.threads[i]?.map Thread.req with
    | some (.delete _ jobId), _ => (s.state.jobs.get jobId).isSome
    | some (.commit c), some (.purge before onlyRetried) =>
      (s.state.jobs.rows.filter (purged before onlyRetried)).all (fun row =>
        (s.state.written c).contains (row.id, .deleted))
    | _, _ => true
  | _ => true

/-! What the sessions have written. -/

namespace State
variable {s : State} {c c' : Nat}

theorem written_connect (s : State) : State.written { s with sessions := s.sessions ++ [[]] } = s.written :=
  sessionAt_connect s.sessions

theorem written_new (s : State) : s.written s.sessions.length = [] :=
  sessionAt_of_none (List.getElem?_eq_none (Nat.le_refl _))

theorem written_set (h : c < s.sessions.length) (changes : List (Uuid × Change)) :
    State.written { s with sessions := s.sessions.set c changes } = Function.update s.written c changes :=
  sessionAt_set (List.getElem?_eq_getElem h) changes

theorem written_write (h : c < s.sessions.length) (change : Uuid × Change) :
    (s.write c change).written = Function.update s.written c (s.written c ++ [change]) :=
  written_set h _

theorem written_clear (s : State) (c : Nat) : (s.clear c).written = Function.update s.written c [] := by
  by_cases h : c < s.sessions.length
  · exact written_set h []
  · have hsame : s.clear c = s := by
      rw [clear, List.set_eq_of_length_le (Nat.le_of_not_lt h)]
    have hnone : s.written c = [] := sessionAt_of_none (List.getElem?_eq_none (Nat.le_of_not_lt h))
    rw [hsame, ← hnone, Function.update_eq_self]

/-- A row that is not locked is written by no other session. -/
theorem not_written {jobId : Uuid} (h : s.locked c jobId = false) (hne : c' ≠ c) :
    jobId ∉ (s.written c').map Prod.fst := by
  rintro hmem
  obtain ⟨change, hchange, rfl⟩ := List.mem_map.mp hmem
  have hopen : c' < s.sessions.length := by
    by_contra hclosed
    have hnone : s.written c' = [] := sessionAt_of_none (List.getElem?_eq_none (Nat.le_of_not_lt hclosed))
    rw [hnone] at hchange
    cases hchange
  have hlocked : s.locked c change.1 = true := by
    refine List.any_eq_true.mpr ⟨c', List.mem_range.mpr hopen, ?_⟩
    rw [Bool.and_eq_true]
    exact ⟨decide_eq_true hne, List.any_eq_true.mpr ⟨change, hchange, decide_eq_true rfl⟩⟩
  rw [h] at hlocked
  cases hlocked

end State

/-! What a commit does to a row. -/

section Changes
variable {jobs : Jobs} {jobId : Uuid}

theorem apply_get {change : Uuid × Change} (h : change.1 ≠ jobId) : (Change.apply jobs change).get jobId = jobs.get jobId := by
  have hkey : ∀ row, jobs.get jobId = some row → row.id ≠ change.1 := by
    intro row hrow heq
    exact h (heq.symm.trans (Table.get_key hrow))
  obtain ⟨id, change⟩ := change
  cases change with
  | retried now =>
    simp only [Change.apply, Table.get_updateWhere]
    cases hrow : jobs.get jobId with
    | none => rfl
    | some row => simp [hkey row hrow]
  | deleted =>
    simp only [Change.apply, Table.get_deleteWhere]
    cases hrow : jobs.get jobId with
    | none => rfl
    | some row => simp [hkey row hrow]

/-- The other rows are as they were. -/
theorem foldl_apply_get {changes : List (Uuid × Change)} (h : jobId ∉ changes.map Prod.fst) :
    (changes.foldl Change.apply jobs).get jobId = jobs.get jobId := by
  induction changes generalizing jobs with
  | nil => rfl
  | cons change changes ih =>
    rw [List.map_cons, List.mem_cons, not_or] at h
    rw [List.foldl_cons, ih h.2, apply_get (Ne.symm h.1)]

/-- No change makes a row claimable. -/
theorem apply_claimable {change : Uuid × Change} (h : claimable jobs jobId = none) :
    claimable (Change.apply jobs change) jobId = none := by
  unfold claimable at h ⊢
  cases hrow : jobs.get jobId with
  | none => cases hc : change.2 <;> simp [Change.apply, hc, Table.get_updateWhere, Table.get_deleteWhere, hrow]
  | some row =>
    rw [hrow] at h
    cases hc : change.2 with
    | retried now =>
      simp only [Change.apply, hc, Table.get_updateWhere, hrow, Option.map_some]
      split
      · rfl
      · exact h
    | deleted =>
      simp only [Change.apply, hc, Table.get_deleteWhere, hrow, Option.filter_some]
      split
      · exact h
      · rfl

theorem foldl_apply_claimable {changes : List (Uuid × Change)} (h : claimable jobs jobId = none) :
    claimable (changes.foldl Change.apply jobs) jobId = none := by
  induction changes generalizing jobs with
  | nil => exact h
  | cons change changes ih => exact ih (apply_claimable h)

/-- Deletes of rows one by one are one delete of these rows. -/
theorem foldl_deleted (gone : List Uuid) :
    (gone.map (fun id => (id, Change.deleted))).foldl Change.apply jobs = jobs.deleteWhere (fun row => gone.contains row.id) := by
  induction gone generalizing jobs with
  | nil =>
    obtain ⟨rows, hrows⟩ := jobs
    simp [Table.deleteWhere]
  | cons id gone ih =>
    rw [List.map_cons, List.foldl_cons, ih]
    simp only [Change.apply, Table.deleteWhere, List.filter_filter, Table.mk.injEq]
    apply List.filter_congr
    intro row _
    by_cases hid : row.id = id <;> simp [hid]

end Changes

end FastiKit.DeadLetter.Admin
