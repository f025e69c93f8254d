import FastiKit.Auth.Transactions
import FastiKit.Interleave.Faults

/- The operations on an account are all or nothing.

   Any statement of an operation may raise, an `IntegrityError` or anything else,
   and so may the commit, which has then not happened. What a statement did before
   it raised is not told apart: it is rolled back. `_flush_or_raise` and `stage_add`
   catch an `IntegrityError`, only to raise another exception (`givesUp`), so an
   operation returns only if nothing failed. -/
namespace FastiKit

open Interleave Relational

/-- What a statement or a commit may raise. -/
inductive Raised where
  | integrity (err : IntegrityError)
  | other (name : String)
  deriving DecidableEq, Repr

/-- What raises, by the number of the statement in its transaction. -/
structure Failures where
  statement : Nat → Option Raised
  commit : Option Raised

/-- How an `IntegrityError` reaches the statements whose callers catch one. -/
def Stmt.refused : (s : Stmt) → IntegrityError → Option s.Res
  | .insertUser _, err => some (.error err)
  | .updateUser _ _ _, err => some (.error err)
  | .insertRevokedToken _, err => some (.error err)
  | .insertSession _, err => some (.error err)
  | .insertOutboxEvent _, err => some (.error err)
  | _, _ => none

/-- The failures as the statements of a transaction meet them. -/
def Failures.faults (failures : Failures) : Prog.Faults Stmt Stmt.Res Raised := fun n s =>
  match failures.statement n with
  | none => none
  | some (.integrity err) =>
    match s.refused err with
    | some answer => some (.ok answer)
    | none => some (.error (.integrity err))
  | some (.other name) => some (.error (.other name))

/-- `transaction` where statements and the commit may raise. -/
def transactionUnder {α : Type} (cfg : Config) (failures : Failures) (tx : Tx α) (db : Db) :
    Except (Err ⊕ Raised) α × Db :=
  match tx.evalUnder (execStmt cfg) failures.faults 0 db with
  | (.error e, _) => (.error e, db)
  | (.ok a, db') =>
    match failures.commit with
    | none => (.ok a, db')
    | some e => (.error (.inr e), db)

/-- The operations with their arguments. -/
inductive AccountOperation where
  | register (model : User) (event : OutboxEvent EmailPayload)
  | verifyEmail (userId jti : Uuid) (expiresAt now : Time)
  | resetPassword (userId : Uuid) (passwordHash : PasswordHash) (jti : Uuid) (expiresAt : Time)
      (snapshot : Snapshot) (now : Time)
  | startEmailVerification (userId jti : Uuid) (event : OutboxEvent EmailPayload) (now : Time)
  | startPasswordReset (userId jti : Uuid) (event : OutboxEvent EmailPayload) (now : Time)
  | logout (userId : Uuid) (tokens : List TokenRef) (refreshSessionId : Option Uuid) (now : Time)
  | closeAccount (userId : Uuid) (tokens : List TokenRef) (snapshot : Snapshot) (now : Time)

namespace AccountOperation

/-- What an operation returns; `closeAccount` returns no user if there is none. -/
@[reducible] def Result : AccountOperation → Type
  | register _ _ => User
  | verifyEmail _ _ _ _ => User
  | resetPassword _ _ _ _ _ _ => User
  | startEmailVerification _ _ _ _ => Unit
  | startPasswordReset _ _ _ _ => Unit
  | logout _ _ _ _ => Unit
  | closeAccount _ _ _ _ => Option User

def tx : (op : AccountOperation) → Tx op.Result
  | register model event => UserRepository.register model event
  | verifyEmail userId jti expiresAt now => AccountRepository.verifyEmail userId jti expiresAt now
  | resetPassword userId passwordHash jti expiresAt snapshot now =>
    AccountRepository.resetPassword userId passwordHash jti expiresAt snapshot now
  | startEmailVerification userId jti event now => AccountRepository.startEmailVerification userId jti event now
  | startPasswordReset userId jti event now => AccountRepository.startPasswordReset userId jti event now
  | logout userId tokens refreshSessionId now => AccountRepository.logout userId tokens refreshSessionId now
  | closeAccount userId tokens snapshot now => AccountRepository.closeAccount userId tokens snapshot now

end AccountOperation

/-! One row more; `none` where its key is taken. -/

def Db.addUser (db : Db) (model : User) : Option Db :=
  (db.users.insert model).map fun users => { db with users }

def Db.addToken (db : Db) (jti : Uuid) (expiresAt : Time) : Option Db :=
  (db.revokedTokens.insert ⟨jti, expiresAt⟩).map fun revokedTokens => { db with revokedTokens }

def Db.addEvent (db : Db) (event : OutboxEvent EmailPayload) : Option Db :=
  (db.outboxEvents.insert event).map fun outboxEvents => { db with outboxEvents }

/-- All the writes of an operation, one after the other. -/
def AccountOperation.writes (db : Db) : AccountOperation → Option Db
  | register model event => (db.addUser model).bind (·.addEvent event)
  | verifyEmail userId jti expiresAt now =>
    (db.setUser userId { isVerified := some true } now).addToken jti expiresAt
  | resetPassword userId passwordHash jti expiresAt snapshot now =>
    ((db.setUser userId { passwordHash := some passwordHash } now).addToken jti expiresAt).map
      (·.revokeAllForUser userId snapshot now)
  | startEmailVerification userId jti event now =>
    (db.setUser userId { pendingVerificationJti := some jti } now).addEvent event
  | startPasswordReset userId jti event now =>
    (db.setUser userId { pendingPasswordResetJti := some jti } now).addEvent event
  | logout userId tokens refreshSessionId now => some (db.logout userId tokens refreshSessionId now)
  | closeAccount userId tokens snapshot now => some (db.closeAccount userId tokens snapshot now)

section GivesUp
open Prog

end GivesUp

end FastiKit
