import FastiKit.Interleave.Machine
import Mathlib.Data.List.Basic

/- One request's session: where `RoutingSession` sends its statements, and when
   `AsyncResilientRoutingSession` rolls back and tries again.

   Correspondence (Python ↔ Lean):
     `RoutingSession.get_bind`                  ↔ `getBind`
     `_pin_primary_on_flush`, `db.flush`        ↔ `Session.flush`
     `_can_fail_over`                           ↔ `Session.canFailOver`
     `_with_failover`                           ↔ `Session.withFailover`
     a read with `force_primary_var` set for it
     and reset after it (`exists`, `list_active`,
     `RefreshSessionRepository.get`)            ↔ `Session.scopedRead`
     `force_primary_var.set(True)`              ↔ `Session.forcePrimary`
   Every call has a number, in the order of the calls, and a pending change or a
   statement is known by the number of the call it came from. What a statement
   returns plays no part here. -/
namespace FastiKit.Database

open Interleave

inductive Engine where
  | primary
  | replica
  deriving DecidableEq, Repr

/-- The clause of a statement. A `select()` may have a CTE that is an insert, an
update or a delete; a `text()` has its SQL. -/
inductive Clause where
  | select (writingCte : Bool)
  | insert
  | update
  | delete
  | text (sql : String)
  deriving DecidableEq, Repr

/-- What `str.lstrip` strips. -/
def isSpace (c : Char) : Bool :=
  ("\t\n\x0b\x0c\r\x1c\x1d\x1e\x1f \u0085\u00a0\u1680\u2028\u2029\u202f\u205f\u3000".toList.contains c) ||
    ('\u2000' ≤ c && c ≤ '\u200a')

/-- The keywords `get_bind` looks for at the start of a text. -/
def writeKeywords : List String := ["insert", "update", "delete", "create", "drop", "alter"]

/-- `clause.text.lstrip().lower().startswith(..)`; of the letters outside ASCII none
becomes the start of a keyword in lower case. -/
def startsAsWrite (sql : String) : Bool :=
  let queryText := (sql.toList.dropWhile isSpace).map Char.toLower
  writeKeywords.any (·.toList.isPrefixOf queryText)

/-- The engine of a statement and the value of `force_primary_var` afterwards, from
`bind_override_var` (only tests set it), `force_primary_var` and the clause. -/
def getBind (bindOverride : Option Engine) (forcePrimary : Bool) (clause : Option Clause) : Engine × Bool :=
  match bindOverride with
  | some engine => (engine, forcePrimary)
  | none =>
    if forcePrimary then (.primary, forcePrimary)
    else match clause with
      | some .insert | some .update | some .delete => (.primary, true)
      | some (.select _) => (.replica, forcePrimary)
      | some (.text sql) => if startsAsWrite sql then (.primary, true) else (.primary, forcePrimary)
      -- the default, also for a flush, which has a mapper and no clause
      | none => (.primary, forcePrimary)

/-- Whether a statement modifies data; of a text, Postgres decides. -/
def Clause.writes (modifies : String → Bool) : Clause → Bool
  | .select writingCte => writingCte
  | .insert | .update | .delete => true
  | .text sql => modifies sql

/-- The clauses that set the flag. -/
def Clause.pins : Clause → Bool
  | .select _ => false
  | .insert | .update | .delete => true
  | .text sql => startsAsWrite sql

/-- A statement as it was sent, whether or not it returned. -/
structure Sent where
  number : Nat
  writes : Bool
  engine : Engine
  deriving DecidableEq, Repr

/-- What the session held when `_with_failover` rolled it back, and where the call
ran again. -/
structure Retry where
  number : Nat
  pending : List Nat
  uncommitted : List Nat
  engine : Engine
  deriving DecidableEq, Repr

/-- `new`, `dirty` and `deleted` are the session's pending changes, `uncommitted` the
writes of its transaction. `sent` and `retries` are the history of the session. -/
structure Session where
  forcePrimary : Bool
  new : List Nat
  dirty : List Nat
  deleted : List Nat
  uncommitted : List Nat
  calls : Nat
  sent : List Sent
  retries : List Retry
  deriving DecidableEq, Repr

/-- Where a call raises `OperationalError`; the rollback is the one before the retry. -/
inductive Raises where
  | nowhere
  | statement
  | alsoRollback
  deriving DecidableEq, Repr

namespace Session

/-- `db_session` sets the flag to `False` for a new session. -/
def init : Session := ⟨false, [], [], [], [], 0, [], []⟩

def pending (s : Session) : List Nat := s.new ++ s.dirty ++ s.deleted

/-- A rollback expunges what is new, expires what is dirty and restores what is deleted. -/
def rollback (s : Session) : Session :=
  { s with new := [], dirty := [], deleted := [], uncommitted := [] }

/-- A session without pending changes does not flush; any other is pinned by the
hook first. A flush that raises has sent some of the changes, and rolls back. -/
def flush (s : Session) (raisesAt : Option Nat) : Session :=
  if s.pending = [] then s
  else
    let engine := (getBind none true none).1
    let numbers := match raisesAt with
      | none => s.pending
      | some k => s.pending.take (k + 1)
    let flushed : Session :=
      { s with
        forcePrimary := true
        new := []
        dirty := []
        deleted := []
        uncommitted := s.uncommitted ++ numbers
        sent := s.sent ++ numbers.map fun n => ⟨n, true, engine⟩ }
    if raisesAt.isSome then flushed.rollback else flushed

/-- A statement is bound and sent. -/
def attempt (modifies : String → Bool) (s : Session) (clause : Clause) : Session :=
  let bind := getBind none s.forcePrimary (some clause)
  { s with
    forcePrimary := bind.2
    uncommitted := if clause.writes modifies then s.uncommitted ++ [s.calls] else s.uncommitted
    sent := s.sent ++ [⟨s.calls, clause.writes modifies, bind.1⟩] }

def canFailOver (s : Session) : Bool := !s.forcePrimary && s.pending.isEmpty

/-- The retry, after the session was pinned and rolled back. -/
def retry (modifies : String → Bool) (s : Session) (clause : Clause) : Session :=
  let pinned := { s with forcePrimary := true }
  { pinned.rollback.attempt modifies clause with
    retries := s.retries ++
      [⟨s.calls, s.pending, s.uncommitted, (getBind none pinned.rollback.forcePrimary (some clause)).1⟩] }

def withFailover (modifies : String → Bool) (s : Session) (clause : Clause) (raises : Raises) : Session :=
  let tried := s.attempt modifies clause
  match raises with
  | .nowhere => tried
  | .statement => if tried.canFailOver then tried.retry modifies clause else tried
  | .alsoRollback => if tried.canFailOver then { tried with forcePrimary := true }.rollback else tried

/-- `force_primary_var` is set for the read, and reset whether or not it raised. -/
def scopedRead (modifies : String → Bool) (s : Session) (raises : Raises) : Session :=
  let token := s.forcePrimary
  { { s with forcePrimary := true }.withFailover modifies (.select false) raises with forcePrimary := token }

/-- A commit flushes first; one that raises keeps its transaction until a rollback. -/
def commit (s : Session) (flushRaisesAt : Option Nat) (raises : Bool) : Session :=
  let flushed := s.flush flushRaisesAt
  if raises then flushed else { flushed with uncommitted := [] }

end Session

/-- The calls on a session. `execute` is also `scalar` and `scalars`; a `get` of a row
the session has loaded sends nothing. -/
inductive Call where
  | add
  | setAttribute
  | delete
  | flush (raisesAt : Option Nat)
  | execute (clause : Clause) (raises : Raises)
  | get (loaded : Bool) (raises : Raises)
  | scopedRead (raises : Raises)
  | forcePrimary
  | commit (flushRaisesAt : Option Nat) (raises : Bool)
  | rollback
  deriving DecidableEq, Repr

/-- What a call does to the session. -/
def Session.call (modifies : String → Bool) (s : Session) : Call → Session
  | .add => { s with new := s.new ++ [s.calls] }
  | .setAttribute => { s with dirty := s.dirty ++ [s.calls] }
  | .delete => { s with deleted := s.deleted ++ [s.calls] }
  | .flush raisesAt => s.flush raisesAt
  | .execute clause raises => s.withFailover modifies clause raises
  | .get loaded raises => if loaded then s else s.withFailover modifies (.select false) raises
  | .scopedRead raises => s.scopedRead modifies raises
  | .forcePrimary => { s with forcePrimary := true }
  | .commit flushRaisesAt raises => s.commit flushRaisesAt raises
  | .rollback => s.rollback

/-- A session, call after call. -/
def sessionCalls (modifies : String → Bool) : Machine Session Call where
  step s call := some { s.call modifies call with calls := s.calls + 1 }

/-- A statement that modifies data and finds the session unpinned pins it: it is an
`insert()`, an `update()`, a `delete()` or a text that starts with a keyword, or it
raises where the session fails over. -/
def recognised (modifies : String → Bool) (s : Session) : Call → Bool
  | .execute clause raises =>
    !clause.writes modifies || s.forcePrimary || clause.pins || (raises != .nowhere && s.canFailOver)
  | _ => true

/-! What the pieces do to the flag and to the history. -/

theorem getBind_flag (flag : Bool) (clause : Clause) : (getBind none flag (some clause)).2 = (flag || clause.pins) := by
  cases flag with
  | true => rfl
  | false =>
    cases clause with
    | text sql =>
      simp only [getBind, Clause.pins, Bool.false_or, Bool.false_eq_true, if_false]
      split <;> simp_all
    | _ => rfl

theorem getBind_pinned (clause : Option Clause) : (getBind none true clause).1 = .primary := rfl

namespace Session
variable {modifies : String → Bool}

theorem attempt_sent (s : Session) (clause : Clause) : (s.attempt modifies clause).sent =
    s.sent ++ [⟨s.calls, clause.writes modifies, (getBind none s.forcePrimary (some clause)).1⟩] := rfl

theorem attempt_flag (s : Session) (clause : Clause) :
    (s.attempt modifies clause).forcePrimary = (s.forcePrimary || clause.pins) :=
  getBind_flag s.forcePrimary clause

theorem not_canFailOver {s : Session} (h : s.forcePrimary = true) : s.canFailOver = false := by
  simp [canFailOver, h]

theorem canFailOver_attempt (s : Session) (clause : Clause) :
    (s.attempt modifies clause).canFailOver = (s.canFailOver && !clause.pins) := by
  simp only [canFailOver, attempt_flag]
  cases s.forcePrimary <;> simp [attempt, pending, Bool.and_comm]

/-- A flush pins the session, sends changes that were pending and leaves none. -/
theorem flush_sends {s : Session} (h : s.pending ≠ []) (raisesAt : Option Nat) : ∃ numbers : List Nat,
    numbers.Sublist s.pending ∧ (s.flush raisesAt).forcePrimary = true ∧
    (s.flush raisesAt).sent = s.sent ++ numbers.map (fun n => ⟨n, true, .primary⟩) ∧
    (s.flush raisesAt).pending = [] := by
  cases raisesAt with
  | none =>
    refine ⟨s.pending, List.Sublist.refl _, ?_⟩
    rw [flush, if_neg h]
    exact ⟨rfl, rfl, rfl⟩
  | some k =>
    refine ⟨s.pending.take (k + 1), List.take_sublist _ _, ?_⟩
    rw [flush, if_neg h]
    exact ⟨rfl, rfl, rfl⟩

/-- A pinned session only tries once. -/
theorem withFailover_pinned {s : Session} (h : s.forcePrimary = true) (clause : Clause) (raises : Raises) :
    s.withFailover modifies clause raises = s.attempt modifies clause := by
  have hflag : (s.attempt modifies clause).forcePrimary = true := by simp [attempt_flag, h]
  cases raises <;> simp [withFailover, not_canFailOver hflag]

end Session

end FastiKit.Database
