import FastiKit.Auth.Keyed
import FastiKit.Auth.Outages
import FastiKit.Http.Problem

/- What a response says about whether there is an account. The routes that mail a
   link answer the same text whether or not they act on an account, and a login that
   does not authenticate answers 401 whatever there is. But to act on an account takes
   four calls of the primary, and only a request that acts can meet an outage there,
   or find that the account the replica still has is gone.

   Correspondence (Python ↔ Lean):
     exceptions of the services, and the status
     and body their handlers answer             ↔ `DomainException.http`, `reply`
     a request, from its start to its response  ↔ `answer` -/
namespace FastiKit

open Interleave Relational

/-! The response. -/

namespace DomainException

def title : DomainException → String
  | invalidCredentials => "Unauthorized"
  | invalidToken _ => "Invalid Token"
  | invalidRefreshToken => "Unauthorized"
  | entityNotFound _ _ => "Entity Not Found"
  | unauthorizedAction _ => "Forbidden"
  | conflict _ => "Resource Conflict"

def http (e : DomainException) : Http.DomainException :=
  { detail := e.detail, statusCode := e.statusCode, typeStr := e.typeStr, title := some e.title }

end DomainException

/-- The status and the body of a response: what a route returned, or a problem. -/
structure Reply where
  status : Nat
  body : Response ⊕ Asgi.Fields Http.Value
  deriving DecidableEq

def Reply.problem (response : Http.Response) : Reply := ⟨response.status, .inr response.payload⟩

section Answer
variable (hreq : Http.Request) (ctx : Http.Context)

/-- What the client gets of a request that needs no token. -/
def reply : Except (Err ⊕ OperationalError) Response → Reply
  | .ok response => ⟨200, .inl response⟩
  | .error (.inl (.domain e)) => .problem (Http.domainExceptionHandler hreq ctx e.http)
  | .error _ => .problem (Http.internalServerError hreq ctx)

def answer (cfg : Config) (available : Availability) (req : Request) (w : World) : Reply :=
  reply hreq ctx ((serve cfg req).evalRaising (callOp cfg available) (.new w)).1

end Answer

/-! Two states of the database. -/

section Account
variable (available : Availability)

/-- What `get_by_email` finds: nothing where no engine answers. -/
def World.byEmail (email : String) (w : World) : Option User :=
  if available.replica 0 then w.replica.users.rows.find? (fun r => r.email = email)
  else if available.primary 0 then w.db.users.rows.find? (fun r => r.email = email)
  else none

/-- The account that a request is about to mail a link to. -/
def Request.account (w : World) : Request → Option User
  | .resendVerification email => (w.byEmail available email).filter (fun u => !u.isVerified)
  | .forgotPassword email => (w.byEmail available email).filter (fun u => u.isActive)
  | _ => none

/-- The primary does not have the account any more. -/
def Request.missing (w : World) (req : Request) : Option Uuid :=
  ((req.account available w).filter (fun u => (w.db.users.get u.id).isNone)).map User.id

/-- The primary's first call after the read. -/
def Availability.linkCall : Nat := if available.replica 0 then 0 else 1

/-- The SELECT of the account, its UPDATE, the INSERT of the event and the commit are
all answered. -/
def Availability.links : Bool := (List.range 4).all fun n => available.primary (available.linkCall + n)

end Account

/-! How a request ends. -/

section Link
variable {cfg : Config} {available : Availability}

/-- What a transaction raised or returned, as the request ends that runs it last. -/
def ending : Except OperationalError (Except Err Unit) → Except (Err ⊕ OperationalError) Unit
  | .ok r => r.mapError .inl
  | .error e => .error (.inr e)

end Link

/-! The three ends have three statuses, and the id of an account that is gone is in
the problem's detail. -/

/-- An account that is not verified, on the primary and on the replica. -/
def World.registered (users : List User) : World :=
  let users := (Table.empty.insertAll users : Option (Table Uuid User User.id)).getD .empty
  let db := { Db.empty with users }
  { World.init 0 with db, versions := [db], replica := db, uuids := 1 }

end FastiKit
