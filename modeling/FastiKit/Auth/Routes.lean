import FastiKit.Auth.Services
import FastiKit.Interleave.Pool
import FastiKit.Language.Words

/- The API as a system: what each route and task runs, which requests can be
   made, what a response hands out, and what happens around the requests.

   Correspondence (Python ↔ Lean):
     `auth.routes.auth_router`, `user.routes.user_router`,
     `core.worker.tasks`, `core.outbox.relay`          ↔ `serve`
     `_set_refresh_cookie`, `auth.create_access_token` ↔ `World.sign`
   The environment advances the clock, replicates, disturbs Redis and takes its
   keys away. -/
namespace FastiKit

open Interleave

/-- `refresh_session_claims` -/
def refreshSessionClaims (payload : TokenPayload) : Option (Uuid × Nat) := payload.session

/-- What a request runs. -/
def serve (cfg : Config) : Request → Api Response
  | .createUser data => do
    return .user (← UserService.register cfg data)
  | .login email password => do
    let (user, session) ← AuthService.login cfg email password
    return .tokens user session
  | .refresh cookie => do
    let payload ← tokenRequired .refresh cookie
    match refreshSessionClaims payload with
    | none => throw (.domain .invalidRefreshToken)
    | some (sessionId, generation) =>
      let (user, session) ← AuthService.refresh cfg payload.sub sessionId generation
      return .tokens user session
  | .logout header cookie => do
    AuthService.logout (← getAuthSession header cookie)
    return .message "Logged out"
  | .deleteUser header cookie => do
    let session ← getAuthSession header cookie
    AuthService.closeAccount session.userId session.tokens
    return .message "User deleted"
  | .updateUser header data => do
    let payload ← tokenRequired .access header
    return .user (← UserService.update cfg payload.sub data)
  | .getUser header => do
    return .user (← getCurrentUser header)
  | .listUsers header params => do
    let _ ← requireScopes cfg ["admin:read"] header
    return .page (← UserService.list params)
  | .verifyEmail token => do
    AuthService.verifyEmail token
    return .message "Email verified"
  | .resendVerification email => do
    AuthService.resendVerification email
    return .message ("If an account with that email exists and is unverified, " ++
      "a verification link has been sent.")
  | .forgotPassword email => do
    AuthService.forgotPassword email
    return .message "If an account with that email exists, a password reset link has been sent."
  | .resetPassword token newPassword => do
    AuthService.resetPassword cfg token newPassword
    return .message "Password has been reset"
  | .isTokenRevoked token => do
    return .revoked (← isTokenRevoked token)
  | .cleanupRevokedTokens => do
    let _ ← orRaise (← api (.purgeTokens (← now)))
    return .completed none
  | .cleanupRefreshSessions => do
    return .completed (some (← orRaise (← api (.purgeSessions (← now)))))
  | .cleanupOutbox => do
    return .completed (some (← cleanupDispatched cfg))
  | .dispatchPending ids => do
    orRaise (← api (.dispatchEvents ids))
    return .completed none

/-- The tokens a request carries. -/
def Request.tokens : Request → List TokenPayload
  | .refresh cookie => [cookie]
  | .logout header cookie => header :: cookie.toList
  | .deleteUser header cookie => header :: cookie.toList
  | .updateUser header _ => [header]
  | .getUser header => [header]
  | .listUsers header _ => [header]
  | .verifyEmail token => [token]
  | .resetPassword token _ => [token]
  | .isTokenRevoked token => [token]
  | _ => []

namespace World

/-- The emails that were staged: what is in the table, and what was cleaned up. -/
def staged (w : World) : List (OutboxEvent EmailPayload) := w.db.outboxEvents.rows ++ w.cleaned

/-- The token was handed out: signed in a response, or part of an email. -/
def issued (w : World) (token : TokenPayload) : Bool :=
  w.signed.contains token || w.staged.any (fun event => event.payload.token = token)

/-- A signature cannot be forged: a request carries tokens that were issued. -/
def accepts (w : World) (req : Request) : Bool := req.tokens.all w.issued

/-- `create_access_token` and `_set_refresh_cookie`. -/
def sign (w : World) (cfg : Config) (userId : Uuid) (session : RefreshSession) : World :=
  let access : TokenPayload :=
    { sub := userId, type := .access, jti := w.uuids, exp := encodeExp (w.now + cfg.accessTtl),
      session := none, scopes := Words.split (cfg.scopes userId) }
  let refresh : TokenPayload :=
    { sub := userId, type := .refresh, jti := w.uuids + 1, exp := encodeExp session.expiresAt,
      session := some (session.id, session.generation) }
  { w with uuids := w.uuids + 2, signed := refresh :: access :: w.signed }

/-- What a response leaves behind. A refreshed token carries the `sub` it
presented, which is the user's id. -/
def respond (cfg : Config) (req : Request) (out : Except Err Response) (w : World) : World :=
  let logged := { w with responses := (req, out) :: w.responses }
  match out with
  | .ok (.tokens user session) => logged.sign cfg user.id session
  | _ => logged

end World

/-- What happens around the requests. -/
inductive Event where
  | tick (elapsed : Nat)
  | replicate (version : Nat)
  | redisFault (fault : RedisFault)
  | loseKeys
  deriving DecidableEq, Repr

def World.event : Event → World → Option World
  | .tick elapsed, w => some { w with now := w.now + elapsed }
  | .replicate version, w => w.versions[version]?.map (fun replica => { w with replica })
  | .redisFault fault, w => some { w with redis := { w.redis with fault } }
  | .loseKeys, w =>
    some { w with redis := { w.redis with jtis := [], ready := false, seedingUntil := none } }

/-- The whole service. -/
def service (cfg : Config) : System Op Op.Res World Request Err Response Event where
  exec := execOp cfg
  program := serve cfg
  accepts := World.accepts
  respond := World.respond cfg
  env := World.event

/-- A pool of requests on the service. -/
abbrev Service := Pool Op Op.Res World Request Err Response

/-- The service reaches `s'` from `s`, whatever is asked of it and in whatever
order its steps are taken. -/
abbrev Reaches (cfg : Config) : Service → Service → Prop := (service cfg).Steps (fun _ _ => True)

/-- `s'` is reached from `s` by steps that `c` allows. -/
abbrev StepsIf (cfg : Config) (c : Service → Action Request Event → Bool) : Service → Service → Prop :=
  (service cfg).Steps (fun v a => c v a = true)

/-- Every step is allowed. -/
def anyStep (_ : Service) (_ : Action Request Event) : Bool := true

/-- A request made in `s` is answered `out` by the step that ends in `s'`. -/
abbrev Replies (cfg : Config) (s : Service) (req : Request) (out : Except Err Response) (s' : Service) :
    Prop :=
  (service cfg).Completes (fun _ _ => True) s req out s'

/-! Concrete requests, for runs that reach what the results are about. -/

/-- Settings with a cheap key derivation. -/
def Config.sample : Config where
  sessionTtl := 20 * 86400 * 1000000
  reuseGrace := 10 * 1000000
  accessTtl := 15 * 60 * 1000000
  outboxRetention := 7 * 86400 * 1000000
  scopes _ := ""
  hasScopes scopes required := required.all scopes.contains
  apaginate params users := users.take params.size
  kdf password _ := password
  dummyPasswordHash := ⟨0, ""⟩
  message
    | .notNull column _ => column
    | .uniqueEmail _ => "ix_users_email"
    | .primaryKey table _ => table
    | .uniqueJti _ => "ix_revoked_tokens_jti"
    | .foreignKey _ => "refresh_sessions_user_id_fkey"

/-- The verification link of the first user to register at time zero. -/
def sampleLink : TokenPayload := { sub := 0, type := .emailVerify, jti := 1, exp := 86400, session := none }

/-- A user registers, verifies the address and logs in. -/
def signIn : List (Action Request Event) :=
  serially 0 5 (.createUser ⟨"Ada", "ada@example.org", "first"⟩) ++ serially 1 5 (.verifyEmail sampleLink) ++
    serially 2 3 (.login "ada@example.org" "first")

/-- The user as the verification leaves it. -/
def sampleUser : User :=
  newUser 0 "Ada" "ada@example.org" ⟨2, "first"⟩ (some 1) 0 |> UserFields.apply { isVerified := some true } 0

/-- The access token of that login. -/
def sampleAccess : TokenPayload := { sub := 0, type := .access, jti := 5, exp := 900, session := none }

/-- A reset link mailed to the user at time zero. -/
def sampleReset (jti : Uuid) : TokenPayload :=
  { sub := 0, type := .passwordReset, jti, exp := 900, session := none }

/-- A refresh token of that login's session. -/
def sampleRefresh (jti : Uuid) (generation : Nat) : TokenPayload :=
  { sub := 0, type := .refresh, jti, exp := 1728000, session := some (4, generation) }

end FastiKit
