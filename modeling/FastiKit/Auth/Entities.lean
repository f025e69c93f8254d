import Mathlib.Control.Monad.Basic
import Mathlib.Data.List.Infix

/- The entities of the auth and user domains, the exceptions their services
   raise, and the third-party code they rest on.

   Correspondence (Python ↔ Lean):
     `user.entities.user.User`                   ↔ `User`
     `auth.entities.refresh_session`             ↔ `RefreshSession`
     `auth.entities.auth_session`                ↔ `TokenRef`, `AuthSession`
     `auth.models.revoked_token_model`           ↔ `RevokedToken` (its surrogate id is never read)
     `authx.TokenPayload`, `jwt.encode`          ↔ `TokenPayload`
     `user.schemas.user_schema`                  ↔ `CreateUserRequest`, `UpdateUserRequest`
     `core.exception`, `auth.exceptions`         ↔ `DomainException`
     `core.outbox.model.OutboxEvent`             ↔ `OutboxEvent`
     `fastapi_pagination.cursor.CursorParams`    ↔ `CursorParams`
   A `uuid4()` is a number no other call has returned. The column `users.scopes`, which
   only scripts and migrations write, is a setting (`Config.scopes`). -/
namespace FastiKit

/-- A moment or a length of time in microseconds, the precision of `datetime`. -/
abbrev Time := Int

/-- A value of `uuid4()`: the ids of rows and the jtis of tokens. -/
abbrev Uuid := Nat

theorem uuid_toString_injective {id id' : Uuid} (h : toString id = toString id') : id = id' := by
  have hdigits : Nat.toDigits 10 id = Nat.toDigits 10 id' := by
    rw [← Nat.toList_repr, ← Nat.toList_repr]
    exact congrArg String.toList h
  have := congrArg (fun digits => Nat.ofDigitChars 10 digits 0) hdigits
  simpa using this

/-- What bcrypt stores: the salt, and the digest of the password under it. -/
structure PasswordHash where
  salt : Nat
  digest : String
  deriving DecidableEq, Repr

structure User where
  id : Uuid
  email : String
  fullName : String
  passwordHash : PasswordHash
  isActive : Bool
  isVerified : Bool
  pendingVerificationJti : Option Uuid
  pendingPasswordResetJti : Option Uuid
  createdAt : Time
  updatedAt : Time
  deriving DecidableEq, Repr

structure RefreshSession where
  id : Uuid
  userId : Uuid
  generation : Nat
  expiresAt : Time
  rotatedAt : Option Time
  revokedAt : Option Time
  deriving DecidableEq, Repr

structure RevokedToken where
  jti : Uuid
  expiresAt : Time
  deriving DecidableEq, Repr

structure TokenRef where
  jti : Uuid
  expiresAt : Time
  deriving DecidableEq, Repr

inductive TokenType where
  | access
  | refresh
  | emailVerify
  | passwordReset
  deriving DecidableEq, Repr

/-- The claims of a signed token; `exp` is in whole seconds, `session` holds
the claims `sid` and `gen` of a refresh token, `scopes` those of an access token. -/
structure TokenPayload where
  sub : Uuid
  type : TokenType
  jti : Uuid
  exp : Int
  session : Option (Uuid × Nat)
  scopes : List String := []
  deriving DecidableEq, Repr

/-- The moment `exp` names (`TokenPayload.expiry_datetime`, `AuthService._expiry`). -/
def TokenPayload.expiryDatetime (p : TokenPayload) : Time := p.exp * 1000000

def TokenPayload.ref (p : TokenPayload) : TokenRef := ⟨p.jti, p.expiryDatetime⟩

/-- `jwt.encode` keeps the whole seconds of a moment. -/
def encodeExp (t : Time) : Int := t / 1000000

structure AuthSession where
  userId : Uuid
  tokens : List TokenRef
  refreshSessionId : Option Uuid
  deriving DecidableEq, Repr

/-- The email of a link. The body is an HTML paragraph around
`{backend_url}/api/v1/auth/{path}?token={token}`. -/
structure EmailPayload where
  subject : String
  recipients : List String
  path : String
  token : TokenPayload
  deriving DecidableEq, Repr

structure OutboxEvent (π : Type) where
  id : Uuid
  taskName : String
  payload : π
  createdAt : Time
  dispatchedAt : Option Time
  failedAt : Option Time
  attempts : Nat
  lastError : Option String
  deriving DecidableEq, Repr

/-- A new event, with the column defaults of the model. -/
def OutboxEvent.new {π : Type} (id : Uuid) (taskName : String) (payload : π) (now : Time) :
    OutboxEvent π :=
  { id, taskName, payload, createdAt := now, dispatchedAt := none, failedAt := none, attempts := 0,
    lastError := none }

/-- The WHERE clause of the relay's select. -/
def OutboxEvent.pending {π : Type} (row : OutboxEvent π) : Bool := row.dispatchedAt.isNone && row.failedAt.isNone

/-- The row after its job was enqueued. -/
def OutboxEvent.dispatched {π : Type} (now : Time) (row : OutboxEvent π) : OutboxEvent π :=
  { row with dispatchedAt := some now }

@[simp] theorem OutboxEvent.dispatched_id {π : Type} (now : Time) (row : OutboxEvent π) :
    (row.dispatched now).id = row.id := rfl

structure CreateUserRequest where
  name : String
  email : String
  password : String
  deriving DecidableEq, Repr

/-- A PATCH body: a field is absent, `null`, or given. -/
structure UpdateUserRequest where
  fullName : Option (Option String)
  email : Option (Option String)
  password : Option (Option String)
  deriving DecidableEq, Repr

structure CursorParams where
  cursor : Option String
  size : Nat
  deriving DecidableEq, Repr

/-- `core.exception.DomainException`, by class. -/
inductive DomainException where
  | invalidCredentials
  | invalidToken (detail : String)
  | invalidRefreshToken
  | entityNotFound (entityName identifier : String)
  | unauthorizedAction (detail : String)
  | conflict (detail : String)
  deriving DecidableEq, Repr

namespace DomainException

def detail : DomainException → String
  | invalidCredentials => "Invalid credentials"
  | invalidToken detail => detail
  | invalidRefreshToken => "Refresh token is no longer valid"
  | entityNotFound entityName identifier =>
    entityName ++ " with identifier '" ++ identifier ++ "' was not found."
  | unauthorizedAction detail => detail
  | conflict detail => detail

def statusCode : DomainException → Nat
  | invalidCredentials => 401
  | invalidToken _ => 400
  | invalidRefreshToken => 401
  | entityNotFound _ _ => 404
  | unauthorizedAction _ => 403
  | conflict _ => 409

def typeStr : DomainException → String
  | invalidCredentials => "errors/invalid-credentials"
  | invalidToken _ => "errors/invalid-token"
  | invalidRefreshToken => "errors/invalid-refresh-token"
  | entityNotFound _ _ => "errors/not-found"
  | unauthorizedAction _ => "errors/unauthorized-action"
  | conflict _ => "errors/conflict"

end DomainException

/-- A constraint a statement violates. -/
inductive Violation where
  | notNull (column : String) (row : User)
  | uniqueEmail (email : String)
  | primaryKey (table : String) (id : Uuid)
  | uniqueJti (jti : Uuid)
  | foreignKey (userId : Uuid)
  deriving DecidableEq, Repr

/-- `sqlalchemy.exc.IntegrityError`, with the text of the driver's error. -/
structure IntegrityError where
  orig : String
  deriving DecidableEq, Repr

/-- What a request can end with instead of a response. `jwt` is any error of
`jwt.decode`, `authx` a token that `token_required` turns away. -/
inductive Err where
  | domain (e : DomainException)
  | integrity (e : IntegrityError)
  | redis
  | jwt
  | authx (detail : String)
  deriving DecidableEq, Repr

/-- The settings the services are built with, the scopes users have, and the
third-party functions they call: bcrypt's key derivation, the texts of Postgres'
errors, `TokenPayload.has_scopes` and the page that `apaginate` makes of a query. -/
structure Config where
  sessionTtl : Time
  reuseGrace : Time
  accessTtl : Time
  outboxRetention : Time
  scopes : Uuid → String
  hasScopes : List String → List String → Bool
  apaginate : CursorParams → List User → List User
  kdf : String → Nat → String
  dummyPasswordHash : PasswordHash
  message : Violation → String

/-- `hashpw(password, salt)`. -/
def Config.hashpw (cfg : Config) (password : String) (salt : Nat) : PasswordHash :=
  ⟨salt, cfg.kdf password salt⟩

/-- `checkpw(password, hash)`: derive under the stored salt and compare. -/
def Config.checkpw (cfg : Config) (password : String) (hash : PasswordHash) : Bool :=
  cfg.kdf password hash.salt == hash.digest

end FastiKit
