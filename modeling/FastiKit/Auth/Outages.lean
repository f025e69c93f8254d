import FastiKit.Auth.Routes
import FastiKit.Auth.Transactions
import FastiKit.Database.Session
import FastiKit.Interleave.Faults

/- The requests on engines that do not always answer. Every statement and every
   commit is one call of an engine, and a call that is not answered raises
   `OperationalError`, without an effect. A read on the replica is tried once more
   on the primary; nothing else is.

   Correspondence (Python ↔ Lean):
     `primary_engine`, `replica_engine`     ↔ `Availability`, by the number of the call
     `_with_failover` of a `scalar`         ↔ `Backend.read`
     `core.database.transaction`            ↔ `Backend.transact`
   Where every call is answered, a request does here what it does in `World`
   (`evalRaising_always`). -/
namespace FastiKit

open Interleave Database

/-- `sqlalchemy.exc.OperationalError`, of a call that an engine did not answer. -/
structure OperationalError where
  engine : Engine
  deriving DecidableEq, Repr

/-- Which of a request's calls an engine answers, counted for each engine. -/
structure Availability where
  primary : Nat → Bool
  replica : Nat → Bool

def Availability.always : Availability := ⟨fun _ => true, fun _ => true⟩

/-- The world, and how often the request has called each engine. -/
structure Backend where
  world : World
  primaryCalls : Nat
  replicaCalls : Nat

namespace Backend
section Calls
variable (available : Availability) {α : Type}

/-- The backend of a new request. -/
def new (w : World) : Backend := ⟨w, 0, 0⟩

def readPrimary (query : Db → α) (b : Backend) : Except OperationalError α × Backend :=
  let called := { b with primaryCalls := b.primaryCalls + 1 }
  if available.primary b.primaryCalls then (.ok (query b.world.db), called) else (.error ⟨.primary⟩, called)

def readReplica (query : Db → α) (b : Backend) : Except OperationalError α × Backend :=
  let called := { b with replicaCalls := b.replicaCalls + 1 }
  if available.replica b.replicaCalls then (.ok (query b.world.replica), called) else (.error ⟨.replica⟩, called)

/-- A SELECT. One that is `consistent` has pinned the session, which is no longer
able to fail over. -/
def read (consistent : Bool) (query : Db → α) (b : Backend) : Except OperationalError α × Backend :=
  match (getBind none consistent (some (.select false))).1 with
  | .primary => b.readPrimary available query
  | .replica =>
    match b.readReplica available query with
    | (.ok rows, b') => (.ok rows, b')
    | (.error _, b') => b'.readPrimary available query

/-- A statement of a transaction, on the primary. -/
def sendStmt (cfg : Config) (s : Stmt) (at_ : Db × Nat) : Except OperationalError s.Res × (Db × Nat) :=
  if available.primary at_.2 then (.ok (execStmt cfg s at_.1).1, (execStmt cfg s at_.1).2, at_.2 + 1)
  else (.error ⟨.primary⟩, at_.1, at_.2 + 1)

/-- Run a transaction: commit if it returns, roll back if it raises or if the commit
is not answered. -/
def transact (cfg : Config) (tx : Tx α) (b : Backend) : Except OperationalError (Except Err α) × Backend :=
  match tx.evalRaising (sendStmt available cfg) (b.world.db, b.primaryCalls) with
  | (.ok a, db, calls) =>
    if available.primary calls then
      (.ok (.ok a), { b with world := { b.world with db, versions := db :: b.world.versions },
                             primaryCalls := calls + 1 })
    else (.error ⟨.primary⟩, { b with primaryCalls := calls + 1 })
  | (.error (.inl e), _, calls) =>
    (.ok (.error e), { b with world := { b.world with versions := b.world.db :: b.world.versions },
                              primaryCalls := calls })
  | (.error (.inr e), _, calls) => (.error e, { b with primaryCalls := calls })

end Calls

def draw (b : Backend) : Backend := { b with world := b.world.draw.2 }

end Backend

section CallOp
variable (cfg : Config) (available : Availability)

/-- An operation of a request. The clock, the ids and Redis need no engine. -/
def callOp : (op : Op) → Backend → Except OperationalError op.Res × Backend
  | .getUser id consistent, b => b.read available consistent (fun db => db.users.get id)
  | .getUserByEmail email consistent, b =>
    b.read available consistent (fun db => db.users.rows.find? (fun r => r.email = email))
  | .listUsers params, b => b.read available false (fun db => cfg.apaginate params (newestFirst db.users.rows))
  | .getSession id, b => b.read available true (fun db => db.refreshSessions.get id)
  | .tokenExists jti now, b => b.read available true (fun db => RevokedTokenRepository.exists_ db jti now)
  | .listActive now, b => b.read available true (fun db => RevokedTokenRepository.listActive db now)
  | .register id fullName email passwordHash jti payload, b =>
    b.draw.transact available cfg
      (UserRepository.register (newUser id fullName email passwordHash (some jti) b.world.now)
        (emailEvent b.world payload))
  | .updateUser id fields, b => b.transact available cfg (UserRepository.update id fields b.world.now)
  | .verifyEmail userId token, b =>
    b.transact available cfg (AccountRepository.verifyEmail userId token.jti token.expiryDatetime b.world.now)
  | .resetPassword userId passwordHash token snapshot, b =>
    b.transact available cfg
      (AccountRepository.resetPassword userId passwordHash token.jti token.expiryDatetime snapshot b.world.now)
  | .startEmailVerification userId jti payload, b =>
    b.draw.transact available cfg
      (AccountRepository.startEmailVerification userId jti (emailEvent b.world payload) b.world.now)
  | .startPasswordReset userId jti payload, b =>
    b.draw.transact available cfg
      (AccountRepository.startPasswordReset userId jti (emailEvent b.world payload) b.world.now)
  | .logout userId tokens refreshSessionId, b =>
    b.transact available cfg (AccountRepository.logout userId tokens refreshSessionId b.world.now)
  | .closeAccount userId tokens snapshot, b =>
    b.transact available cfg (AccountRepository.closeAccount userId tokens snapshot b.world.now)
  | .createSession user expiresAt, b =>
    b.draw.transact available cfg (RefreshSessionRepository.create b.world.uuids user.id expiresAt)
  | .rotate sessionId userId generation now, b =>
    b.transact available cfg (RefreshSessionRepository.rotate sessionId userId generation now)
  | .revokeSession sessionId, b =>
    b.transact available cfg (RefreshSessionRepository.revoke sessionId b.world.now)
  | .purgeSessions now, b => b.transact available cfg (RefreshSessionRepository.purgeExpired now)
  | .purgeTokens now, b => b.transact available cfg (RevokedTokenRepository.purgeExpired now)
  | .purgeEvents cutoff, b =>
    match b.transact available cfg (OutboxRelay.cleanupDispatched cutoff) with
    | (.ok answer, b') =>
      let cleaned := b.world.db.dispatchedBefore cutoff ++ b.world.cleaned
      (.ok answer, { b' with world := { b'.world with cleaned } })
    | (.error e, b') => (.error e, b')
  | .dispatchEvents ids, b => b.transact available cfg (OutboxRelay.dispatchPending ids b.world.now)
  | op, b => (.ok (execOp cfg op b.world).1, { b with world := (execOp cfg op b.world).2 })

end CallOp

/-! With every call answered. -/

section Always
variable (cfg : Config)

theorem Backend.read_always {α : Type} (consistent : Bool) (query : Db → α) (b : Backend) : ∃ b',
    b.read .always consistent query =
      (.ok (query (if consistent then b.world.db else b.world.replica)), b') ∧ b'.world = b.world := by
  cases consistent with
  | true => exact ⟨_, rfl, rfl⟩
  | false => exact ⟨_, rfl, rfl⟩

theorem Backend.transact_always {α : Type} (tx : Tx α) (b : Backend) : ∃ b',
    b.transact .always cfg tx = (.ok (b.world.transact cfg tx).1, b') ∧
      b'.world = (b.world.transact cfg tx).2 := by
  have hsent : ∀ (s : Stmt) (at_ : Db × Nat), ∃ at',
      sendStmt .always cfg s at_ = (.ok (execStmt cfg s at_.1).1, at') ∧ at'.1 = (execStmt cfg s at_.1).2 :=
    fun s at_ => ⟨_, rfl, rfl⟩
  obtain ⟨⟨db, calls⟩, hrun, hdb⟩ := Prog.evalRaising_of_answered hsent tx (b.world.db, b.primaryCalls)
  have hdb : db = (tx.eval (execStmt cfg) b.world.db).2 := hdb
  unfold transact World.transact transaction
  rw [hrun]
  cases hplain : tx.eval (execStmt cfg) b.world.db with
  | mk out db' =>
    rw [hplain] at hdb
    cases out with
    | ok a => exact ⟨_, rfl, by rw [hdb]⟩
    | error e => exact ⟨_, rfl, rfl⟩

theorem callOp_always (op : Op) (b : Backend) : ∃ b',
    callOp cfg .always op b = (.ok (execOp cfg op b.world).1, b') ∧ b'.world = (execOp cfg op b.world).2 := by
  cases op with
  | getUser id consistent => exact Backend.read_always consistent _ b
  | getUserByEmail email consistent => exact Backend.read_always consistent _ b
  | listUsers params =>
    exact Backend.read_always false (fun db => cfg.apaginate params (newestFirst db.users.rows)) b
  | getSession id => exact Backend.read_always true (fun db => db.refreshSessions.get id) b
  | tokenExists jti now =>
    exact Backend.read_always true (fun db => RevokedTokenRepository.exists_ db jti now) b
  | listActive now => exact Backend.read_always true (fun db => RevokedTokenRepository.listActive db now) b
  | register | startEmailVerification | startPasswordReset | createSession =>
    exact Backend.transact_always cfg _ b.draw
  | updateUser | verifyEmail | resetPassword | logout | closeAccount => exact Backend.transact_always cfg _ b
  | rotate sessionId userId generation now =>
    exact Backend.transact_always cfg (RefreshSessionRepository.rotate sessionId userId generation now) b
  | revokeSession sessionId =>
    exact Backend.transact_always cfg (RefreshSessionRepository.revoke sessionId b.world.now) b
  | purgeSessions now => exact Backend.transact_always cfg (RefreshSessionRepository.purgeExpired now) b
  | purgeTokens now => exact Backend.transact_always cfg (RevokedTokenRepository.purgeExpired now) b
  | purgeEvents cutoff =>
    obtain ⟨b', hanswer, hworld⟩ := Backend.transact_always cfg (OutboxRelay.cleanupDispatched cutoff) b
    refine ⟨_, by simp only [callOp, hanswer]; rfl, ?_⟩
    simp only [hworld]
    rfl
  | dispatchEvents ids => exact Backend.transact_always cfg (OutboxRelay.dispatchPending ids b.world.now) b
  | clock | revokeClock | uuid4 | gensalt | snapshot | setJti | mget | setSeeding | setReady =>
    exact ⟨_, rfl, rfl⟩

/-- Where every call is answered, a request runs as in `World`. -/
theorem evalRaising_always {α : Type} (p : Api α) (b : Backend) : ∃ b',
    p.evalRaising (callOp cfg .always) b = ((p.eval (execOp cfg) b.world).1.mapError .inl, b') ∧
      b'.world = (p.eval (execOp cfg) b.world).2 :=
  Prog.evalRaising_of_answered (callOp_always cfg) p b

end Always

end FastiKit
