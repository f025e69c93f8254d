import FastiKit.Auth.Entities
import FastiKit.Interleave.Program
import FastiKit.Relational.Table

/- The repositories, statement by statement. A repository method that writes is
   a program over SQL statements (`Tx`); `transaction` runs one against the
   database and keeps its effect only if it returns, which is what
   `core.database.transaction` does with commit and rollback.

   Correspondence (Python ↔ Lean):
     `core.database.transaction`                    ↔ `transaction`
     `user.repositories.user_repository`            ↔ `UserRepository`
     `auth.repositories.refresh_session_repository` ↔ `RefreshSessionRepository`
     `auth.repositories.revoked_token_repository`   ↔ `RevokedTokenRepository`
     `auth.repositories.account_repository`         ↔ `AccountRepository`
     `core.outbox.repository`, `core.outbox.relay`  ↔ `OutboxRepository`, `OutboxRelay`
   A `now` argument is a reading of the clock taken before the commit. Transactions are
   READ COMMITTED. The rows that one writes are locked until it commits, and nobody sees
   them before, so it may as well happen at its commit, but for the UPDATE that revokes
   all of a user's sessions: it changes the rows its `Snapshot` shows, and not one that a
   login inserts and commits before it commits itself. -/
namespace FastiKit

open Interleave Relational

/-- The tables the auth and user domains write. -/
structure Db where
  users : Table Uuid User User.id
  refreshSessions : Table Uuid RefreshSession RefreshSession.id
  revokedTokens : Table Uuid RevokedToken RevokedToken.jti
  outboxEvents : Table Uuid (OutboxEvent EmailPayload) OutboxEvent.id

def Db.empty : Db := ⟨.empty, .empty, .empty, .empty⟩

/-- The keyword arguments of `stage_update`; an inner `none` is a `null`. -/
structure UserFields where
  email : Option (Option String) := none
  fullName : Option (Option String) := none
  passwordHash : Option PasswordHash := none
  isActive : Option Bool := none
  isVerified : Option Bool := none
  pendingVerificationJti : Option Uuid := none
  pendingPasswordResetJti : Option Uuid := none
  deriving DecidableEq, Repr

/-- The first non-null column the fields set to `null`. -/
def UserFields.nullColumn (f : UserFields) : Option String :=
  if f.email = some none then some "email"
  else if f.fullName = some none then some "full_name"
  else none

/-- The row with the fields set. -/
def UserFields.set (f : UserFields) (u : User) : User :=
  { u with
    email := (f.email.bind id).getD u.email
    fullName := (f.fullName.bind id).getD u.fullName
    passwordHash := f.passwordHash.getD u.passwordHash
    isActive := f.isActive.getD u.isActive
    isVerified := f.isVerified.getD u.isVerified
    pendingVerificationJti := f.pendingVerificationJti.or u.pendingVerificationJti
    pendingPasswordResetJti := f.pendingPasswordResetJti.or u.pendingPasswordResetJti }

/-- The row as an UPDATE leaves it: one that changes nothing is not sent, and
`updated_at` moves only with one that is. -/
def UserFields.apply (f : UserFields) (now : Time) (u : User) : User :=
  if f.set u = u then u else { f.set u with updatedAt := now }

theorem UserFields.apply_id (f : UserFields) (now : Time) (u : User) : (f.apply now u).id = u.id := by
  unfold apply
  split <;> rfl

section Fields
variable (f : UserFields) (now : Time) (u : User)

@[simp] theorem UserFields.apply_email : (f.apply now u).email = (f.email.bind id).getD u.email := by
  unfold apply
  split
  · next h => exact (congrArg User.email h).symm
  · rfl

@[simp] theorem UserFields.apply_fullName :
    (f.apply now u).fullName = (f.fullName.bind id).getD u.fullName := by
  unfold apply
  split
  · next h => exact (congrArg User.fullName h).symm
  · rfl

@[simp] theorem UserFields.apply_passwordHash :
    (f.apply now u).passwordHash = f.passwordHash.getD u.passwordHash := by
  unfold apply
  split
  · next h => exact (congrArg User.passwordHash h).symm
  · rfl

@[simp] theorem UserFields.apply_isActive : (f.apply now u).isActive = f.isActive.getD u.isActive := by
  unfold apply
  split
  · next h => exact (congrArg User.isActive h).symm
  · rfl

@[simp] theorem UserFields.apply_isVerified :
    (f.apply now u).isVerified = f.isVerified.getD u.isVerified := by
  unfold apply
  split
  · next h => exact (congrArg User.isVerified h).symm
  · rfl

@[simp] theorem UserFields.apply_pendingPasswordResetJti :
    (f.apply now u).pendingPasswordResetJti = f.pendingPasswordResetJti.or u.pendingPasswordResetJti := by
  unfold apply
  split
  · next h => exact (congrArg User.pendingPasswordResetJti h).symm
  · rfl

end Fields

/-- What a statement under READ COMMITTED sees of the rows that others insert: it began
when the ids below `bound` were given out. -/
structure Snapshot where
  bound : Nat
  deriving DecidableEq, Repr

def Snapshot.shows (s : Snapshot) (id : Uuid) : Bool := decide (id < s.bound)

/-- The SQL statements of the repositories. -/
inductive Stmt where
  | getUser (id : Uuid)
  | insertUser (model : User)
  | updateUser (id : Uuid) (fields : UserFields) (now : Time)
  | insertRevokedToken (model : RevokedToken)
  | insertRevokedTokenOrNothing (model : RevokedToken)
  | insertSession (model : RefreshSession)
  | rotateSession (sessionId userId : Uuid) (generation : Nat) (now : Time)
  | revokeSessions (conditions : RefreshSession → Bool) (now : Time)
  | deleteExpiredSessions (now : Time)
  | deleteExpiredTokens (now : Time)
  | insertOutboxEvent (event : OutboxEvent EmailPayload)
  | dispatchEvents (ids : List Uuid) (now : Time)
  | deleteDispatched (cutoff : Time)

@[reducible] def Stmt.Res : Stmt → Type
  | getUser _ => Option User
  | insertUser _ => Except IntegrityError Unit
  | updateUser _ _ _ => Except IntegrityError User
  | insertRevokedToken _ => Except IntegrityError Unit
  | insertRevokedTokenOrNothing _ => Unit
  | insertSession _ => Except IntegrityError Unit
  | rotateSession _ _ _ _ => Option RefreshSession
  | revokeSessions _ _ => Unit
  | deleteExpiredSessions _ => Nat
  | deleteExpiredTokens _ => Nat
  | insertOutboxEvent _ => Except IntegrityError Unit
  | dispatchEvents _ _ => Unit
  | deleteDispatched _ => List Uuid

/-- The WHERE clause of `rotate`. -/
def RefreshSession.rotatable (userId : Uuid) (generation : Nat) (now : Time) (r : RefreshSession) : Bool :=
  r.userId = userId && r.generation = generation && r.revokedAt.isNone && decide (now < r.expiresAt)

def RefreshSession.rotated (now : Time) (r : RefreshSession) : RefreshSession :=
  { r with generation := r.generation + 1, rotatedAt := some now }

def RefreshSession.revoked (now : Time) (r : RefreshSession) : RefreshSession :=
  { r with revokedAt := some now }

/-- The WHERE clause of `cleanup_dispatched`. -/
def OutboxEvent.dispatchedBefore {π : Type} (cutoff : Time) (e : OutboxEvent π) : Bool :=
  e.dispatchedAt.any (fun dispatchedAt => decide (dispatchedAt < cutoff))

theorem RefreshSession.rotated_id (now : Time) (r : RefreshSession) : (r.rotated now).id = r.id := rfl

theorem RefreshSession.revoked_id (now : Time) (r : RefreshSession) : (r.revoked now).id = r.id := rfl

section Statements
variable (cfg : Config)

/-- Another row has the address. -/
def Db.emailTaken (db : Db) (email : String) (id : Uuid) : Bool :=
  db.users.rows.any (fun r => r.email = email && r.id ≠ id)

def execStmt : (s : Stmt) → Db → s.Res × Db
  | .getUser id, db => (db.users.get id, db)
  | .insertUser model, db =>
    if db.emailTaken model.email model.id then (.error ⟨cfg.message (.uniqueEmail model.email)⟩, db)
    else match db.users.insert model with
      | none => (.error ⟨cfg.message (.primaryKey "users" model.id)⟩, db)
      | some users => (.ok (), { db with users })
  | .updateUser id fields now, db =>
    match db.users.get id with
    | none => (.error ⟨cfg.message (.primaryKey "users" id)⟩, db)
    | some user =>
      match fields.nullColumn with
      | some column => (.error ⟨cfg.message (.notNull column (fields.set user))⟩, db)
      | none =>
        if db.emailTaken (fields.set user).email id then
          (.error ⟨cfg.message (.uniqueEmail (fields.set user).email)⟩, db)
        else
          let users := db.users.updateWhere (fun r => r.id = id) (fields.apply now) (fields.apply_id now)
          (.ok (fields.apply now user), { db with users })
  | .insertRevokedToken model, db =>
    match db.revokedTokens.insert model with
    | none => (.error ⟨cfg.message (.uniqueJti model.jti)⟩, db)
    | some revokedTokens => (.ok (), { db with revokedTokens })
  | .insertRevokedTokenOrNothing model, db =>
    match db.revokedTokens.insert model with
    | none => ((), db)
    | some revokedTokens => ((), { db with revokedTokens })
  | .insertSession model, db =>
    if (db.users.get model.userId).isNone then (.error ⟨cfg.message (.foreignKey model.userId)⟩, db)
    else match db.refreshSessions.insert model with
      | none => (.error ⟨cfg.message (.primaryKey "refresh_sessions" model.id)⟩, db)
      | some refreshSessions => (.ok (), { db with refreshSessions })
  | .rotateSession sessionId userId generation now, db =>
    let claimed := (db.refreshSessions.get sessionId).filter (RefreshSession.rotatable userId generation now)
    let refreshSessions := db.refreshSessions.updateWhere
      (fun r => r.id = sessionId && r.rotatable userId generation now) (RefreshSession.rotated now)
      (RefreshSession.rotated_id now)
    (claimed.map (RefreshSession.rotated now), { db with refreshSessions })
  | .revokeSessions conditions now, db =>
    let refreshSessions := db.refreshSessions.updateWhere
      (fun r => conditions r && r.revokedAt.isNone) (RefreshSession.revoked now)
      (RefreshSession.revoked_id now)
    ((), { db with refreshSessions })
  | .deleteExpiredSessions now, db =>
    ((db.refreshSessions.rows.filter (fun r => decide (r.expiresAt ≤ now))).length,
      { db with refreshSessions := db.refreshSessions.deleteWhere (fun r => decide (r.expiresAt ≤ now)) })
  | .deleteExpiredTokens now, db =>
    ((db.revokedTokens.rows.filter (fun r => decide (r.expiresAt ≤ now))).length,
      { db with revokedTokens := db.revokedTokens.deleteWhere (fun r => decide (r.expiresAt ≤ now)) })
  | .insertOutboxEvent event, db =>
    match db.outboxEvents.insert event with
    | none => (.error ⟨cfg.message (.primaryKey "outbox_events" event.id)⟩, db)
    | some outboxEvents => (.ok (), { db with outboxEvents })
  | .dispatchEvents ids now, db =>
    let outboxEvents := db.outboxEvents.updateWhere (fun e => ids.contains e.id && e.pending)
      (OutboxEvent.dispatched now) (OutboxEvent.dispatched_id now)
    ((), { db with outboxEvents })
  | .deleteDispatched cutoff, db =>
    ((db.outboxEvents.rows.filter (OutboxEvent.dispatchedBefore cutoff)).map OutboxEvent.id,
      { db with outboxEvents := db.outboxEvents.deleteWhere (OutboxEvent.dispatchedBefore cutoff) })

end Statements

/-- A piece of a transaction. -/
abbrev Tx (α : Type) := Prog Stmt Stmt.Res Err α

def sql (s : Stmt) : Tx s.Res := Prog.perform s

/-- Run a transaction: commit if it returns, roll back if it raises. -/
def transaction {α : Type} (cfg : Config) (tx : Tx α) (db : Db) : Except Err α × Db :=
  match tx.eval (execStmt cfg) db with
  | (.ok a, db') => (.ok a, db')
  | (.error e, _) => (.error e, db)

namespace OutboxRepository

def stageAdd (event : OutboxEvent EmailPayload) : Tx Unit := do
  match ← sql (.insertOutboxEvent event) with
  | .ok () => return ()
  | .error err => throw (.integrity err)

end OutboxRepository

namespace OutboxRelay

/-- The stamps of `dispatch_pending`, for the rows whose jobs the queue took. -/
def dispatchPending (ids : List Uuid) (now : Time) : Tx Unit := sql (.dispatchEvents ids now)

def cleanupDispatched (cutoff : Time) : Tx Nat := do
  let deleted ← sql (.deleteDispatched cutoff)
  return deleted.length

end OutboxRelay

namespace UserRepository

/-- `_flush_or_raise`: an integrity error that mentions an email is a conflict. -/
def flushOrRaise {α : Type} : Except IntegrityError α → Tx α
  | .ok a => return a
  | .error err =>
    if "email".toList <:+: err.orig.toLower.toList then throw (.domain (.conflict "Email already in use"))
    else throw (.integrity err)

def stageAdd (model : User) : Tx User := do
  flushOrRaise (← sql (.insertUser model))
  return model

def stageUpdate (id : Uuid) (fields : UserFields) (now : Time) : Tx (Option User) := do
  match ← sql (.getUser id) with
  | none => return none
  | some _ =>
    let user ← flushOrRaise (← sql (.updateUser id fields now))
    return some user

def stageDeactivate (id : Uuid) (now : Time) : Tx (Option User) :=
  stageUpdate id { isActive := some false } now

def register (model : User) (event : OutboxEvent EmailPayload) : Tx User := do
  let user ← stageAdd model
  OutboxRepository.stageAdd event
  return user

def update (id : Uuid) (fields : UserFields) (now : Time) : Tx (Option User) := stageUpdate id fields now

end UserRepository

namespace RevokedTokenRepository

def stageAdd (jti : Uuid) (expiresAt : Time) : Tx Unit := do
  match ← sql (.insertRevokedToken ⟨jti, expiresAt⟩) with
  | .ok () => return ()
  | .error _ => throw (.domain (.conflict "Token already used"))

def stageAddIfAbsent (jti : Uuid) (expiresAt : Time) : Tx Unit :=
  sql (.insertRevokedTokenOrNothing ⟨jti, expiresAt⟩)

/-- `for token in tokens: await self._tokens.stage_add_if_absent(...)`. -/
def stageAddAll : List TokenRef → Tx Unit
  | [] => return ()
  | token :: tokens => do
    stageAddIfAbsent token.jti token.expiresAt
    stageAddAll tokens

def exists_ (db : Db) (jti : Uuid) (now : Time) : Bool :=
  db.revokedTokens.rows.any (fun r => r.jti = jti && decide (now < r.expiresAt))

def listActive (db : Db) (now : Time) : List TokenRef :=
  (db.revokedTokens.rows.filter (fun r => decide (now < r.expiresAt))).map (fun r => ⟨r.jti, r.expiresAt⟩)

def purgeExpired (now : Time) : Tx Nat := sql (.deleteExpiredTokens now)

end RevokedTokenRepository

/-- A row of `refresh_sessions` as `RefreshSessionModel` fills it in. -/
def newSession (id userId : Uuid) (expiresAt : Time) : RefreshSession :=
  { id, userId, generation := 0, expiresAt, rotatedAt := none, revokedAt := none }

namespace RefreshSessionRepository

/-- `create`, for the id the flush allocates. -/
def create (id userId : Uuid) (expiresAt : Time) : Tx RefreshSession := do
  let model := newSession id userId expiresAt
  match ← sql (.insertSession model) with
  | .ok () => return model
  | .error err => throw (.integrity err)

def rotate (sessionId userId : Uuid) (generation : Nat) (now : Time) : Tx (Option RefreshSession) :=
  sql (.rotateSession sessionId userId generation now)

def revokeWhere (conditions : RefreshSession → Bool) (now : Time) : Tx Unit :=
  sql (.revokeSessions conditions now)

def revoke (sessionId : Uuid) (now : Time) : Tx Unit := revokeWhere (fun r => r.id = sessionId) now

def stageRevoke (sessionId userId : Uuid) (now : Time) : Tx Unit :=
  revokeWhere (fun r => r.id = sessionId && r.userId = userId) now

/-- The UPDATE changes the rows in its snapshot. -/
def stageRevokeAllForUser (userId : Uuid) (snapshot : Snapshot) (now : Time) : Tx Unit :=
  revokeWhere (fun r => r.userId = userId && snapshot.shows r.id) now

def purgeExpired (now : Time) : Tx Nat := sql (.deleteExpiredSessions now)

end RefreshSessionRepository

namespace AccountRepository

def userNotFound (userId : Uuid) : Err := .domain (.entityNotFound "User" (toString userId))

def verifyEmail (userId jti : Uuid) (expiresAt now : Time) : Tx User := do
  match ← UserRepository.stageUpdate userId { isVerified := some true } now with
  | none => throw (userNotFound userId)
  | some user =>
    RevokedTokenRepository.stageAdd jti expiresAt
    return user

def resetPassword (userId : Uuid) (passwordHash : PasswordHash) (jti : Uuid) (expiresAt : Time)
    (snapshot : Snapshot) (now : Time) : Tx User := do
  match ← UserRepository.stageUpdate userId { passwordHash := some passwordHash } now with
  | none => throw (userNotFound userId)
  | some user =>
    RevokedTokenRepository.stageAdd jti expiresAt
    RefreshSessionRepository.stageRevokeAllForUser userId snapshot now
    return user

/-- A new pending jti, and the email with its link. -/
def startLink (userId : Uuid) (pending : UserFields) (event : OutboxEvent EmailPayload) (now : Time) :
    Tx Unit := do
  match ← UserRepository.stageUpdate userId pending now with
  | none => throw (userNotFound userId)
  | some _ => OutboxRepository.stageAdd event

def startEmailVerification (userId jti : Uuid) (event : OutboxEvent EmailPayload) (now : Time) : Tx Unit :=
  startLink userId { pendingVerificationJti := some jti } event now

def startPasswordReset (userId jti : Uuid) (event : OutboxEvent EmailPayload) (now : Time) : Tx Unit :=
  startLink userId { pendingPasswordResetJti := some jti } event now

def logout (userId : Uuid) (tokens : List TokenRef) (refreshSessionId : Option Uuid) (now : Time) :
    Tx Unit := do
  RevokedTokenRepository.stageAddAll tokens
  match refreshSessionId with
  | none => return ()
  | some sessionId => RefreshSessionRepository.stageRevoke sessionId userId now

def closeAccount (userId : Uuid) (tokens : List TokenRef) (snapshot : Snapshot) (now : Time) :
    Tx (Option User) := do
  match ← UserRepository.stageDeactivate userId now with
  | none => return none
  | some user =>
    RevokedTokenRepository.stageAddAll tokens
    RefreshSessionRepository.stageRevokeAllForUser userId snapshot now
    return some user

end AccountRepository

end FastiKit
