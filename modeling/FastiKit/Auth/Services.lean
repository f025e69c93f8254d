import FastiKit.Auth.World
import FastiKit.Numeric.Rounding

/- The services, each a program over the operations of `World`.

   Correspondence (Python ↔ Lean):
     `auth.blocklist.TokenBlocklist`                  ↔ `TokenBlocklist`
     `auth.services.security_service`                 ↔ `SecurityService`
     `auth.services.email_verification_service`       ↔ `EmailVerificationService`
     `auth.services.password_reset_service`           ↔ `PasswordResetService`
     `auth.services.auth_service`                     ↔ `AuthService`
     `user.services.user_service`                     ↔ `UserService`
     `core.outbox.relay.cleanup_dispatched`           ↔ `cleanupDispatched`
     `auth.dependencies`, `user.dependencies`         ↔ `isTokenRevoked`, `tokenRequired`,
                                                        `getAuthSession`, `requireScopes`,
                                                        `getCurrentUser`
   Log lines are left out. -/
namespace FastiKit

open Interleave

/-- A request's code. -/
abbrev Api (α : Type) := Prog Op Op.Res Err α

def api (op : Op) : Api op.Res := Prog.perform op

/-- Raise what a transaction raised. -/
def orRaise {α : Type} : Except Err α → Api α
  | .ok a => return a
  | .error e => throw e

/-- `datetime.now(UTC)` -/
def now : Api Time := api .clock

def uuid4 : Api Uuid := api .uuid4

def hashPassword (cfg : Config) (password : String) : Api PasswordHash := do
  let salt : Nat ← api .gensalt
  return cfg.hashpw password salt

namespace TokenBlocklist

/-- `timedelta.total_seconds()`, a double. -/
def totalSeconds (lifetime : Time) : ℚ := Rounding.binary64 (lifetime / 1000000)

/-- `int(lifetime.total_seconds() * 1000)`, where the product is a double too. -/
def wholeMs (lifetime : Time) : Int := Rounding.truncate (Rounding.binary64 (totalSeconds lifetime * 1000))

/-- `int((token.expires_at - now).total_seconds() * 1000)` -/
def ttlMs (token : TokenRef) (now : Time) : Int := wholeMs (token.expiresAt - now)

/-- The product is the lifetime in milliseconds, but for one part in 2 ^ 51. -/
theorem abs_product_sub_le (lifetime : Time) :
    |Rounding.binary64 (totalSeconds lifetime * 1000) - lifetime / 1000| ≤ |(lifetime : ℚ)| / 1000 / 2 ^ 51 := by
  have herror := Rounding.abs_roundTo_mul_sub_le 53 ((lifetime : ℚ) / 1000000) 1000
  have hms : (lifetime : ℚ) / 1000000 * 1000 = lifetime / 1000 := by ring
  rw [hms, abs_div, abs_of_pos (by norm_num : (0 : ℚ) < 1000)] at herror
  refine herror.trans ?_
  rw [div_eq_mul_inv _ ((2 : ℚ) ^ 51)]
  apply mul_le_mul_of_nonneg_left (by norm_num)
  positivity

/-- A millisecond is left if it is left of the exact lifetime. -/
theorem wholeMs_pos_iff {lifetime : Time} : 0 < wholeMs lifetime ↔ 1000 ≤ lifetime := by
  have herror := abs_le.mp (abs_product_sub_le lifetime)
  rw [wholeMs, Rounding.truncate_pos_iff]
  constructor
  · intro h
    by_contra hless
    have hless : (lifetime : ℚ) ≤ 999 := by exact_mod_cast Int.lt_add_one_iff.mp (not_le.mp hless)
    obtain hneg | hpos := lt_or_ge (lifetime : ℚ) 0
    · rw [abs_of_neg hneg] at herror
      linarith
    · rw [abs_of_nonneg hpos] at herror
      linarith
  · intro h
    obtain rfl | hmore := h.eq_or_lt
    · decide +kernel
    · have hmore : (1001 : ℚ) ≤ lifetime := by exact_mod_cast Int.add_one_le_iff.mpr hmore
      rw [abs_of_pos (by linarith)] at herror
      linarith

/-- The pipeline at one of its commands. -/
def pipeline (seeding failed : Bool) (sent rest : List TokenRef) : Pipeline :=
  if failed then .failed else if seeding then .seeding rest else .revoking sent

/-- `pipe.execute()`: every SET is sent, and one error is raised at the end. -/
def execute (seeding failed : Bool) (sent : List TokenRef) : List TokenRef → Api Bool
  | [] => return !failed
  | token :: rest => do
    let acknowledged : Bool ← api (.setJti (pipeline seeding failed sent rest) token)
    execute seeding (failed || !acknowledged) (sent ++ [token]) rest

def revoke (seeding : Bool) (tokens : List TokenRef) : Api Unit := do
  let now : Time ← api (.revokeClock seeding tokens)
  if ← execute seeding false [] (tokens.filter (fun token => decide (ttlMs token now > 0))) then return ()
  else throw .redis

def lookup (jti : Uuid) : Api (Option Bool) := do
  match ← (api (.mget jti) : Api (Option (Bool × Bool))) with
  | none => return none
  | some (revoked, ready) => if ready then return some revoked else return none

def claimSeeding : Api Bool := do
  match ← (api .setSeeding : Api (Option Bool)) with
  | none => return false
  | some claimed => return claimed

def setReady : Api Unit := do
  if ← api .setReady then return () else throw .redis

def seed (tokens : List TokenRef) : Api Unit :=
  tryCatchThe Err (do revoke true tokens; setReady) fun
    | .redis => return ()
    | e => throw e

end TokenBlocklist

namespace SecurityService

def authenticate (cfg : Config) (email password : String) : Api (Option User) := do
  let user : Option User ← api (.getUserByEmail email true)
  let passwordHash := (user.map User.passwordHash).getD cfg.dummyPasswordHash
  match user with
  | none => return none
  | some user =>
    if !cfg.checkpw password passwordHash || !user.isActive || !user.isVerified then return none
    else return some user

end SecurityService

/-- The token of an emailed link, good for `expiry` from now. -/
def createLinkToken (type : TokenType) (expiry : Time) (userId : Uuid) : Api TokenPayload := do
  let now ← now
  let jti ← uuid4
  return { sub := userId, type, jti, exp := encodeExp (now + expiry), session := none }

namespace EmailVerificationService

/-- 24 hours -/
def verifyTokenExpiry : Time := 24 * 3600 * 1000000

def createVerificationToken (userId : Uuid) : Api TokenPayload :=
  createLinkToken .emailVerify verifyTokenExpiry userId

def buildEmailPayload (email : String) (token : TokenPayload) : EmailPayload :=
  { subject := "Verify your email", recipients := [email], path := "verify-email", token }

end EmailVerificationService

namespace PasswordResetService

/-- 15 minutes -/
def resetTokenExpiry : Time := 15 * 60 * 1000000

def createResetToken (userId : Uuid) : Api TokenPayload :=
  createLinkToken .passwordReset resetTokenExpiry userId

def buildEmailPayload (email : String) (token : TokenPayload) : EmailPayload :=
  { subject := "Reset your password", recipients := [email], path := "reset-password", token }

end PasswordResetService

/-- `jwt.decode` of a token whose signature is good: only `exp` is left to check. -/
def jwtDecode (token : TokenPayload) (now : Time) : Bool := decide (now < token.expiryDatetime)

/-- `auth.dependencies.is_token_revoked` -/
def isTokenRevoked (token : TokenPayload) : Api Bool := do
  if !jwtDecode token (← now) then throw (.authx "JWTDecodeError")
  match ← TokenBlocklist.lookup token.jti with
  | some cached => return cached
  | none =>
    let revoked : Bool ← api (.tokenExists token.jti (← now))
    if ← TokenBlocklist.claimSeeding then
      let active : List TokenRef ← api (.listActive (← now))
      TokenBlocklist.seed active
    return revoked

/-- `auth.token_required(type=...)`: the blocklist callback, then the token
itself. -/
def tokenRequired (type : TokenType) (token : TokenPayload) : Api TokenPayload := do
  if ← isTokenRevoked token then throw (.authx "RevokedTokenError")
  if !jwtDecode token (← now) then throw (.authx "JWTDecodeError")
  if token.type = type then return token
  else throw (.authx (if type = .refresh then "RefreshTokenRequiredError" else "AccessTokenRequiredError"))

/-- `get_auth_session`: a refresh cookie counts only if it decodes. -/
def getAuthSession (header : TokenPayload) (cookie : Option TokenPayload) : Api AuthSession := do
  let payload ← tokenRequired .access header
  match cookie with
  | none => return ⟨payload.sub, [payload.ref], none⟩
  | some refreshToken =>
    if jwtDecode refreshToken (← now) then
      return ⟨payload.sub, [payload.ref, refreshToken.ref], refreshToken.session.map Prod.fst⟩
    else return ⟨payload.sub, [payload.ref], none⟩

def getCurrentUser (header : TokenPayload) : Api User := do
  let payload ← tokenRequired .access header
  match ← (api (.getUser payload.sub false) : Api (Option User)) with
  | none => throw (.domain (.entityNotFound "User" (toString payload.sub)))
  | some user =>
    if user.isActive then return user
    else throw (.domain (.unauthorizedAction "Account is deactivated"))

/-- `require_scopes`, which asks for all of them. -/
def requireScopes (cfg : Config) (required : List String) (header : TokenPayload) : Api TokenPayload := do
  let payload ← tokenRequired .access header
  if !cfg.hasScopes payload.scopes required then
    throw (.domain (.unauthorizedAction "Insufficient permissions"))
  return payload

/-- `core.outbox.relay.cleanup_dispatched` -/
def cleanupDispatched (cfg : Config) : Api Nat := do
  let cutoff : Time := (← now) - cfg.outboxRetention
  orRaise (← api (.purgeEvents cutoff))

namespace AuthService

def invalidToken {α : Type} (detail : String) : Api α := throw (.domain (.invalidToken detail))

/-- `try: ... except ConflictError as err: raise InvalidTokenError(detail)` -/
def orInvalidToken {α : Type} (detail : String) (p : Api α) : Api α :=
  tryCatchThe Err p fun
    | .domain (.conflict _) => invalidToken detail
    | e => throw e

def login (cfg : Config) (email password : String) : Api (User × RefreshSession) := do
  match ← SecurityService.authenticate cfg email password with
  | none => throw (.domain .invalidCredentials)
  | some user =>
    let now ← now
    let session ← orRaise (← api (.createSession user (now + cfg.sessionTtl)))
    return (user, session)

/-- `_is_live`, at a clock reading. -/
def isLive (session : RefreshSession) (userId : Uuid) (now : Time) : Bool :=
  session.userId = userId && session.revokedAt.isNone && decide (now < session.expiresAt)

/-- `_was_just_rotated_from`, at a clock reading. -/
def wasJustRotatedFrom (cfg : Config) (session : RefreshSession) (generation : Nat) (now : Time) : Bool :=
  session.generation = generation + 1 &&
    session.rotatedAt.any (fun rotatedAt => decide (now - rotatedAt ≤ cfg.reuseGrace))

def refresh (cfg : Config) (userId sessionId : Uuid) (generation : Nat) : Api (User × RefreshSession) := do
  match ← (api (.getUser userId true) : Api (Option User)) with
  | none => throw (.domain .invalidCredentials)
  | some user =>
    if !user.isActive || !user.isVerified then throw (.domain .invalidCredentials)
    match ← orRaise (← api (.rotate sessionId userId generation (← now))) with
    | some rotated => return (user, rotated)
    | none =>
      match ← (api (.getSession sessionId) : Api (Option RefreshSession)) with
      | none => throw (.domain .invalidRefreshToken)
      | some current =>
        if !isLive current userId (← now) then throw (.domain .invalidRefreshToken)
        if wasJustRotatedFrom cfg current generation (← now) then
          throw (.domain (.conflict "Refresh token was just rotated; retry with the latest cookie"))
        orRaise (← api (.revokeSession sessionId))
        throw (.domain .invalidRefreshToken)

def logout (session : AuthSession) : Api Unit := do
  TokenBlocklist.revoke false session.tokens
  orRaise (← api (.logout session.userId session.tokens session.refreshSessionId))

def closeAccount (userId : Uuid) (tokens : List TokenRef) : Api Unit := do
  TokenBlocklist.revoke false tokens
  let snapshot : Snapshot ← api (.snapshot tokens)
  match ← orRaise (← api (.closeAccount userId tokens snapshot)) with
  | none => throw (.domain (.entityNotFound "User" (toString userId)))
  | some _ => return ()

/-- `_decode` -/
def decode (token : TokenPayload) (expectedType : TokenType) (invalid wrongType used : String) :
    Api TokenPayload := do
  if !jwtDecode token (← now) then invalidToken invalid
  if token.type ≠ expectedType then invalidToken wrongType
  if ← api (.tokenExists token.jti (← now)) then invalidToken used
  return token

/-- `_user_for_token` -/
def userForToken (payload : TokenPayload) : Api User := do
  match ← (api (.getUser payload.sub true) : Api (Option User)) with
  | none => throw (.domain (.entityNotFound "User" (toString payload.sub)))
  | some user => return user

def verifyEmail (token : TokenPayload) : Api Unit := do
  let payload ← decode token .emailVerify "Invalid or expired verification link"
    "Invalid verification token" "Verification link already used"
  let user ← userForToken payload
  if user.pendingVerificationJti ≠ some payload.jti then
    invalidToken "Verification link has been superseded by a newer request"
  orInvalidToken "Verification link already used" (do
    let _ ← orRaise (← api (.verifyEmail user.id payload))
    return ())

def resendVerification (email : String) : Api Unit := do
  match ← (api (.getUserByEmail email false) : Api (Option User)) with
  | none => return ()
  | some user =>
    if user.isVerified then return ()
    let token ← EmailVerificationService.createVerificationToken user.id
    orRaise (← api (.startEmailVerification user.id token.jti
      (EmailVerificationService.buildEmailPayload email token)))

def forgotPassword (email : String) : Api Unit := do
  match ← (api (.getUserByEmail email false) : Api (Option User)) with
  | none => return ()
  | some user =>
    if !user.isActive then return ()
    let token ← PasswordResetService.createResetToken user.id
    orRaise (← api (.startPasswordReset user.id token.jti
      (PasswordResetService.buildEmailPayload email token)))

def resetPassword (cfg : Config) (token : TokenPayload) (newPassword : String) : Api Unit := do
  let payload ← decode token .passwordReset "Invalid or expired reset link" "Invalid reset token"
    "Reset link already used"
  let user ← userForToken payload
  if !user.isActive then throw (.domain (.entityNotFound "User" (toString user.id)))
  if user.pendingPasswordResetJti ≠ some payload.jti then
    invalidToken "Reset link has been superseded by a newer request"
  orInvalidToken "Reset link already used" (do
    let passwordHash ← hashPassword cfg newPassword
    let snapshot : Snapshot ← api (.snapshot [])
    let _ ← orRaise (← api (.resetPassword user.id passwordHash payload snapshot))
    return ())

end AuthService

namespace UserService

def list (params : CursorParams) : Api (List User) := api (.listUsers params)

def register (cfg : Config) (data : CreateUserRequest) : Api User := do
  let userId ← uuid4
  let token ← EmailVerificationService.createVerificationToken userId
  let passwordHash ← hashPassword cfg data.password
  orRaise (← api (.register userId data.name data.email passwordHash token.jti
    (EmailVerificationService.buildEmailPayload data.email token)))

def update (cfg : Config) (userId : Uuid) (data : UpdateUserRequest) : Api User := do
  let fields : UserFields := { email := data.email, fullName := data.fullName }
  let fields ← match data.password with
    | some (some password) => do
      let passwordHash ← hashPassword cfg password
      pure { fields with passwordHash := some passwordHash }
    | _ => pure fields
  match ← orRaise (← api (.updateUser userId fields)) with
  | none => throw (.domain (.entityNotFound "User" (toString userId)))
  | some result => return result

end UserService

end FastiKit
