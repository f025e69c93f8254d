import FastiKit.Auth.Repositories

/- What the requests share: the clock, Postgres and its replica, Redis, the
   source of random ids, and a history of what was signed, cleaned up and answered.
   `Op` is one uninterrupted step of a request: a clock reading, a query, a transaction
   from its first statement to its commit, or a Redis command. The two transactions
   that revoke all of a user's sessions take two steps, `snapshot` and their commit. A
   `now` in an operation is a reading the request took in an earlier step.

   Correspondence (Python ↔ Lean):
     primary, replica (`core.database`)         ↔ `World.db`, `World.replica`
     keys under `auth:blocklist:`               ↔ `Redis`
     request bodies, headers and cookies        ↔ `Request`
     return values of the routes and tasks      ↔ `Response`
   `versions`, `signed`, `cleaned` and `responses` are history: no operation reads
   them, except that the replica serves a version. -/
namespace FastiKit

open Interleave Relational

/-- What a client, the scheduler, the token check or the relay asks for. A token is
the payload under the signature; `accepts` allows only tokens that were issued.
`dispatchPending` is an iteration of the relay, with the rows whose jobs the queue took. -/
inductive Request where
  | createUser (data : CreateUserRequest)
  | login (email password : String)
  | refresh (cookie : TokenPayload)
  | logout (header : TokenPayload) (cookie : Option TokenPayload)
  | deleteUser (header : TokenPayload) (cookie : Option TokenPayload)
  | updateUser (header : TokenPayload) (data : UpdateUserRequest)
  | getUser (header : TokenPayload)
  | listUsers (header : TokenPayload) (params : CursorParams)
  | verifyEmail (token : TokenPayload)
  | resendVerification (email : String)
  | forgotPassword (email : String)
  | resetPassword (token : TokenPayload) (newPassword : String)
  | isTokenRevoked (token : TokenPayload)
  | cleanupRevokedTokens
  | cleanupRefreshSessions
  | cleanupOutbox
  | dispatchPending (ids : List Uuid)
  deriving DecidableEq, Repr

/-- `tokens` is a `LoginResponse` with its cookie: the access and the refresh
token are signed for this user and session. -/
inductive Response where
  | message (text : String)
  | user (user : User)
  | page (items : List User)
  | tokens (user : User) (session : RefreshSession)
  | revoked (answer : Bool)
  | completed (deleted : Option Nat)
  deriving DecidableEq, Repr

/-- What becomes of a command: it is done, it is lost before it reaches Redis,
or it is done and the reply is lost. -/
inductive RedisFault where
  | up
  | lost
  | unacknowledged
  deriving DecidableEq, Repr

/-- The blocklist's keys. A jti's key expires with its token. -/
structure Redis where
  jtis : List TokenRef
  ready : Bool
  seedingUntil : Option Time
  fault : RedisFault

def Redis.empty : Redis := ⟨[], false, none, .up⟩

def Redis.holds (r : Redis) (jti : Uuid) (now : Time) : Bool :=
  r.jtis.any (fun t => t.jti = jti && decide (now < t.expiresAt))

structure World where
  now : Time
  db : Db
  versions : List Db
  replica : Db
  redis : Redis
  uuids : Nat
  signed : List TokenPayload
  cleaned : List (OutboxEvent EmailPayload)
  responses : List (Request × Except Err Response)

/-- The service before its first request. -/
def World.init (now : Time) : World :=
  ⟨now, .empty, [.empty], .empty, .empty, 0, [], [], []⟩

/-- Where a pipeline of SETs stands: a logout's, with the commands acknowledged so
far; one that fills the blocklist from the database, with the commands still to
come; or one that had a command fail. -/
inductive Pipeline where
  | revoking (sent : List TokenRef)
  | seeding (rest : List TokenRef)
  | failed
  deriving DecidableEq

/-- The steps of the requests. `pipe`, `seeding` and the tokens of `snapshot` only say
which pipeline a step belongs to. -/
inductive Op where
  | clock
  | revokeClock (seeding : Bool) (tokens : List TokenRef)
  | uuid4
  | gensalt
  | getUser (id : Uuid) (consistent : Bool)
  | getUserByEmail (email : String) (consistent : Bool)
  | listUsers (params : CursorParams)
  | getSession (id : Uuid)
  | tokenExists (jti : Uuid) (now : Time)
  | listActive (now : Time)
  | snapshot (tokens : List TokenRef)
  | register (id : Uuid) (fullName email : String) (passwordHash : PasswordHash) (jti : Uuid)
      (payload : EmailPayload)
  | updateUser (id : Uuid) (fields : UserFields)
  | verifyEmail (userId : Uuid) (token : TokenPayload)
  | resetPassword (userId : Uuid) (passwordHash : PasswordHash) (token : TokenPayload) (snapshot : Snapshot)
  | startEmailVerification (userId jti : Uuid) (payload : EmailPayload)
  | startPasswordReset (userId jti : Uuid) (payload : EmailPayload)
  | logout (userId : Uuid) (tokens : List TokenRef) (refreshSessionId : Option Uuid)
  | closeAccount (userId : Uuid) (tokens : List TokenRef) (snapshot : Snapshot)
  | createSession (user : User) (expiresAt : Time)
  | rotate (sessionId userId : Uuid) (generation : Nat) (now : Time)
  | revokeSession (sessionId : Uuid)
  | purgeSessions (now : Time)
  | purgeTokens (now : Time)
  | purgeEvents (cutoff : Time)
  | dispatchEvents (ids : List Uuid)
  | setJti (pipe : Pipeline) (token : TokenRef)
  | mget (jti : Uuid)
  | setSeeding
  | setReady
  deriving DecidableEq

/-- The answer to an operation; a Redis command answers `none` or `false` for
a `RedisError`. -/
@[reducible] def Op.Res : Op → Type
  | clock => Time
  | revokeClock _ _ => Time
  | uuid4 => Uuid
  | gensalt => Nat
  | getUser _ _ => Option User
  | getUserByEmail _ _ => Option User
  | listUsers _ => List User
  | getSession _ => Option RefreshSession
  | tokenExists _ _ => Bool
  | listActive _ => List TokenRef
  | snapshot _ => Snapshot
  | register _ _ _ _ _ _ => Except Err User
  | updateUser _ _ => Except Err (Option User)
  | verifyEmail _ _ => Except Err User
  | resetPassword _ _ _ _ => Except Err User
  | startEmailVerification _ _ _ => Except Err Unit
  | startPasswordReset _ _ _ => Except Err Unit
  | logout _ _ _ => Except Err Unit
  | closeAccount _ _ _ => Except Err (Option User)
  | createSession _ _ => Except Err RefreshSession
  | rotate _ _ _ _ => Except Err (Option RefreshSession)
  | revokeSession _ => Except Err Unit
  | purgeSessions _ => Except Err Nat
  | purgeTokens _ => Except Err Nat
  | purgeEvents _ => Except Err Nat
  | dispatchEvents _ => Except Err Unit
  | setJti _ _ => Bool
  | mget _ => Option (Bool × Bool)
  | setSeeding => Option Bool
  | setReady => Bool

namespace World

/-- Take a fresh id. -/
def draw (w : World) : Nat × World := (w.uuids, { w with uuids := w.uuids + 1 })

/-- Run a transaction on the primary. -/
def transact {α : Type} (cfg : Config) (tx : Tx α) (w : World) : Except Err α × World :=
  let r := transaction cfg tx w.db
  (r.1, { w with db := r.2, versions := r.2 :: w.versions })

/-- Send a Redis command; the answer says whether it was acknowledged. -/
def send (w : World) (command : Redis → Redis) : Bool × World :=
  match w.redis.fault with
  | .up => (true, { w with redis := command w.redis })
  | .lost => (false, w)
  | .unacknowledged => (false, { w with redis := command w.redis })

end World

/-- A row of `users` as `UserModel` fills it in. -/
def newUser (id : Uuid) (fullName email : String) (passwordHash : PasswordHash) (jti : Option Uuid)
    (now : Time) : User :=
  { id, email, fullName, passwordHash, isActive := true, isVerified := false, pendingVerificationJti := jti,
    pendingPasswordResetJti := none, createdAt := now, updatedAt := now }

/-- The event `stage_add("send_email_task", payload)` stages. -/
def emailEvent (w : World) (payload : EmailPayload) : OutboxEvent EmailPayload :=
  .new w.uuids "send_email_task" payload w.now

/-- `order_by(created_at.desc(), id.desc())` -/
def newestFirst (users : List User) : List User :=
  users.mergeSort (fun u v => decide (v.createdAt < u.createdAt) || (v.createdAt = u.createdAt && decide (v.id ≤ u.id)))

/-- The events a cleanup deletes. -/
def Db.dispatchedBefore (db : Db) (cutoff : Time) : List (OutboxEvent EmailPayload) :=
  db.outboxEvents.rows.filter (OutboxEvent.dispatchedBefore cutoff)

section Exec
variable (cfg : Config)

def execOp : (op : Op) → World → op.Res × World
  | .clock, w => (w.now, w)
  | .revokeClock _ _, w => (w.now, w)
  | .uuid4, w => w.draw
  | .gensalt, w => w.draw
  | .getUser id consistent, w => ((if consistent then w.db else w.replica).users.get id, w)
  | .getUserByEmail email consistent, w =>
    ((if consistent then w.db else w.replica).users.rows.find? (fun r => r.email = email), w)
  | .listUsers params, w => (cfg.apaginate params (newestFirst w.replica.users.rows), w)
  | .getSession id, w => (w.db.refreshSessions.get id, w)
  | .tokenExists jti now, w => (RevokedTokenRepository.exists_ w.db jti now, w)
  | .listActive now, w => (RevokedTokenRepository.listActive w.db now, w)
  | .snapshot _, w => (⟨w.uuids⟩, w)
  | .register id fullName email passwordHash jti payload, w =>
    w.draw.2.transact cfg (UserRepository.register (newUser id fullName email passwordHash (some jti) w.now)
      (emailEvent w payload))
  | .updateUser id fields, w => w.transact cfg (UserRepository.update id fields w.now)
  | .verifyEmail userId token, w =>
    w.transact cfg (AccountRepository.verifyEmail userId token.jti token.expiryDatetime w.now)
  | .resetPassword userId passwordHash token snapshot, w =>
    w.transact cfg
      (AccountRepository.resetPassword userId passwordHash token.jti token.expiryDatetime snapshot w.now)
  | .startEmailVerification userId jti payload, w =>
    w.draw.2.transact cfg (AccountRepository.startEmailVerification userId jti (emailEvent w payload) w.now)
  | .startPasswordReset userId jti payload, w =>
    w.draw.2.transact cfg (AccountRepository.startPasswordReset userId jti (emailEvent w payload) w.now)
  | .logout userId tokens refreshSessionId, w =>
    w.transact cfg (AccountRepository.logout userId tokens refreshSessionId w.now)
  | .closeAccount userId tokens snapshot, w =>
    w.transact cfg (AccountRepository.closeAccount userId tokens snapshot w.now)
  | .createSession user expiresAt, w =>
    w.draw.2.transact cfg (RefreshSessionRepository.create w.uuids user.id expiresAt)
  | .rotate sessionId userId generation now, w =>
    w.transact cfg (RefreshSessionRepository.rotate sessionId userId generation now)
  | .revokeSession sessionId, w => w.transact cfg (RefreshSessionRepository.revoke sessionId w.now)
  | .purgeSessions now, w => w.transact cfg (RefreshSessionRepository.purgeExpired now)
  | .purgeTokens now, w => w.transact cfg (RevokedTokenRepository.purgeExpired now)
  | .purgeEvents cutoff, w =>
    let r := w.transact cfg (OutboxRelay.cleanupDispatched cutoff)
    (r.1, { r.2 with cleaned := w.db.dispatchedBefore cutoff ++ w.cleaned })
  | .dispatchEvents ids, w => w.transact cfg (OutboxRelay.dispatchPending ids w.now)
  | .setJti _ token, w => w.send (fun r => { r with jtis := token :: r.jtis })
  | .mget jti, w =>
    (if w.redis.fault = .up then some (w.redis.holds jti w.now, w.redis.ready) else none, w)
  | .setSeeding, w =>
    let taken := w.redis.seedingUntil.any (fun t => decide (w.now < t))
    if taken then (if w.redis.fault = .up then some false else none, w)
    else
      -- `nx=True, ex=SEEDING_LOCK_SECONDS`
      let sent := w.send (fun r => { r with seedingUntil := some (w.now + 60 * 1000000) })
      (if sent.1 then some true else none, sent.2)
  | .setReady, w => w.send (fun r => { r with ready := true })

end Exec

end FastiKit
