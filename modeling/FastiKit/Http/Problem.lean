import FastiKit.Asgi.Runs

/- Problem documents: `core/problem.py` and the handlers it installs.

   Correspondence (Python ↔ Lean):
     `request_id_context`, `_query_count`      ↔ `Context`
     `problem_response`                        ↔ `problemResponse`
     `install_problem_handlers`                ↔ `exceptionHandler`
     `install_auth_error_handlers`             ↔ `authxExceptionHandler`
   Header names are in lower case, as ASGI has them. The handler of `Exception` is
   not one of `exceptionHandler`: Starlette calls it outside of every middleware.
   `problemResponse` is the response if nothing raises while it is made; what can is
   in `Faults`. -/
namespace FastiKit.Http

open Asgi

inductive ScopeType where
  | http
  | websocket
  | lifespan
  deriving DecidableEq, Repr

/-- The scope of a call, and what `uuid.uuid4` would answer in it. -/
structure Request where
  type : ScopeType
  path : String
  headers : Fields String
  fresh : { id : String // id ≠ "" }
  deriving DecidableEq, Repr

/-- The context variables. -/
structure Context where
  requestId : String
  queryCount : Nat
  deriving DecidableEq, Repr

/-- Their defaults. -/
def Context.default : Context := ⟨"-", 0⟩

structure InvalidParam where
  name : String
  reason : String
  code : Option String
  deriving DecidableEq, Repr

/-- A value of a JSON document; `json` is any that this program does not look into. -/
inductive Value where
  | text (s : String)
  | number (n : Nat)
  | invalidParams (params : List InvalidParam)
  | json (rendered : String)
  deriving DecidableEq, Repr

/-- What a body holds. -/
inductive Content where
  | bytes (b : String)
  | problem (payload : Fields Value)
  deriving DecidableEq, Repr

structure ProblemDetails where
  type : String
  title : String
  status : Nat
  detail : String
  instance_ : String
  correlationId : Option String
  invalidParams : Option (List InvalidParam)
  deriving DecidableEq, Repr

/-- `problem.model_dump(exclude_none=True)` -/
def ProblemDetails.dump (problem : ProblemDetails) : Fields Value :=
  [("type", .text problem.type), ("title", .text problem.title), ("status", .number problem.status),
    ("detail", .text problem.detail), ("instance", .text problem.instance_)] ++
    (problem.correlationId.map fun id => ("correlation_id", Value.text id)).toList ++
    (problem.invalidParams.map fun params => ("invalid_params", Value.invalidParams params)).toList

/-- The arguments of `problem_response` after the request; `extensions` is a dict. -/
structure ProblemArgs where
  status : Nat
  detail : String
  typeUri : String := "about:blank"
  title : Option String := none
  headers : Fields String := []
  invalidParams : Option (List InvalidParam) := none
  extensions : Fields Value := []
  distinct : (extensions.map Prod.fst).Nodup := by exact List.nodup_nil

/-- A `JSONResponse` of a problem. -/
structure Response where
  status : Nat
  headers : Fields String
  payload : Fields Value
  deriving DecidableEq, Repr

/-- The phrases of `http.HTTPStatus`. -/
def phrases : List (Nat × String) :=
  [(100, "Continue"), (101, "Switching Protocols"), (102, "Processing"), (103, "Early Hints"), (200, "OK"),
    (201, "Created"), (202, "Accepted"), (203, "Non-Authoritative Information"), (204, "No Content"),
    (205, "Reset Content"), (206, "Partial Content"), (207, "Multi-Status"), (208, "Already Reported"),
    (226, "IM Used"), (300, "Multiple Choices"), (301, "Moved Permanently"), (302, "Found"), (303, "See Other"),
    (304, "Not Modified"), (305, "Use Proxy"), (307, "Temporary Redirect"), (308, "Permanent Redirect"),
    (400, "Bad Request"), (401, "Unauthorized"), (402, "Payment Required"), (403, "Forbidden"),
    (404, "Not Found"), (405, "Method Not Allowed"), (406, "Not Acceptable"),
    (407, "Proxy Authentication Required"), (408, "Request Timeout"), (409, "Conflict"), (410, "Gone"),
    (411, "Length Required"), (412, "Precondition Failed"), (413, "Content Too Large"), (414, "URI Too Long"),
    (415, "Unsupported Media Type"), (416, "Range Not Satisfiable"), (417, "Expectation Failed"),
    (418, "I'm a Teapot"), (421, "Misdirected Request"), (422, "Unprocessable Content"), (423, "Locked"),
    (424, "Failed Dependency"), (425, "Too Early"), (426, "Upgrade Required"), (428, "Precondition Required"),
    (429, "Too Many Requests"), (431, "Request Header Fields Too Large"), (451, "Unavailable For Legal Reasons"),
    (500, "Internal Server Error"), (501, "Not Implemented"), (502, "Bad Gateway"),
    (503, "Service Unavailable"), (504, "Gateway Timeout"), (505, "HTTP Version Not Supported"),
    (506, "Variant Also Negotiates"), (507, "Insufficient Storage"), (508, "Loop Detected"),
    (510, "Not Extended"), (511, "Network Authentication Required")]

/-- `a or b` of two strings. -/
def orElse (a b : String) : String := if a = "" then b else a

/-- The id a problem document carries. -/
def correlationId (req : Request) (ctx : Context) : String :=
  orElse ctx.requestId ((Fields.value req.headers "x-request-id").getD "-")

def problemResponse (req : Request) (ctx : Context) (args : ProblemArgs) : Response :=
  let phrase := ((phrases.lookup args.status).getD "Error")
  let problem : ProblemDetails :=
    { type := args.typeUri
      title := (args.title.map (fun title => orElse title phrase)).getD phrase
      status := args.status
      detail := args.detail
      instance_ := req.path
      correlationId := some (correlationId req ctx)
      invalidParams := args.invalidParams }
  ⟨args.status, args.headers, Fields.setAll args.extensions problem.dump⟩

/-- What `JSONResponse` sends; `render` is `json.dumps`. -/
def Response.messages (render : Fields Value → String) (response : Response) : List (Message Content) :=
  let populated := response.headers ++
    (if (Fields.value response.headers "content-length").isSome then []
      else [("content-length", toString (render response.payload).utf8ByteSize)]) ++
    (if (Fields.value response.headers "content-type").isSome then []
      else [("content-type", "application/problem+json")])
  [.start response.status populated, .body (.problem response.payload) false]

/-! The exceptions and their handlers. -/

structure DomainException where
  detail : String
  statusCode : Nat := 400
  typeStr : String := "about:blank"
  title : Option String := none
  extensions : Fields Value := []
  distinct : (extensions.map Prod.fst).Nodup := by exact List.nodup_nil

/-- An error of a `RequestValidationError`; the parts of `loc` as strings. -/
structure ValidationError where
  loc : List String
  msg : String
  type : Option String
  deriving DecidableEq, Repr

/-- The classes `_AUTHX_STATUS` knows, and the others. -/
inductive AuthXException where
  | jwtDecodeError
  | insufficientScopeError
  | policyDeniedError
  | policyEvaluationError
  | rateLimitExceeded
  | other
  deriving DecidableEq, Repr

/-- What a call can raise. `exception` is every `Exception` that no handler but the
one of `Exception` is for, `base` is a `BaseException` that is none, such as a
cancellation. -/
inductive Raised where
  | domain (exc : DomainException)
  | http (statusCode : Nat) (detail : Option String)
  | validation (errors : List ValidationError)
  | rateLimit (detail : String)
  | authx (exc : AuthXException) (text : String)
  | exception (text : String)
  | base (text : String)

/-- What can raise while a response is made, in one request: `request.url.path`, as
for the header `Host: [`; `json.dumps`, of a payload it cannot write; and the limiter
that adds its headers, which reads Redis. An exception is given by its text. -/
structure Faults where
  url : Option String
  json : Fields Value → Option String
  injected : Except String (Fields String)

/-- The response of `problem_response`, or what it raises. -/
def Faults.made (faults : Faults) (response : Response) : Except String Response :=
  match faults.url, faults.json response.payload with
  | some text, _ => .error text
  | none, some text => .error text
  | none, none => .ok response

/-- `except Exception` catches it. -/
def Raised.isException : Raised → Bool
  | .base _ => false
  | _ => true

section Handlers
variable (req : Request) (ctx : Context)

def domainExceptionHandler (exc : DomainException) : Response :=
  problemResponse req ctx
    { status := exc.statusCode, detail := exc.detail, typeUri := exc.typeStr, title := exc.title,
      extensions := exc.extensions, distinct := exc.distinct }

/-- The detail is `none` when it is not a string. -/
def httpExceptionHandler (statusCode : Nat) (detail : Option String) : Response :=
  problemResponse req ctx { status := statusCode, detail := detail.getD "Request failed" }

def validationExceptionHandler (errors : List ValidationError) : Response :=
  problemResponse req ctx
    { status := 422
      detail := "Request validation failed"
      title := some "Unprocessable Entity"
      invalidParams := some (errors.map fun error =>
        ⟨".".intercalate (error.loc.filter (fun part => part ≠ "body")), error.msg, error.type⟩) }

def rateLimitExceptionHandler (faults : Faults) (detail : String) : Except String Response := do
  let response ← faults.made (problemResponse req ctx
    { status := 429, detail := "Rate limit exceeded: " ++ detail, title := some "Too Many Requests" })
  return { response with headers := response.headers ++ (← faults.injected) }

def authxStatus : AuthXException → Nat
  | .jwtDecodeError => 422
  | .insufficientScopeError => 403
  | .policyDeniedError => 403
  | .policyEvaluationError => 500
  | .rateLimitExceeded => 429
  | .other => 401

def authxExceptionHandler (exc : AuthXException) (text : String) : Response :=
  problemResponse req ctx { status := authxStatus exc, detail := text }

/-- The response of the catch-all handler, and of the middlewares that catch all. -/
def internalServerError : Response :=
  problemResponse req ctx { status := 500, detail := "Internal server error", title := some "Internal Server Error" }

def unhandledExceptionHandler (faults : Faults) : Except String Response := faults.made (internalServerError req ctx)

/-- The handlers that Starlette runs inside of the middlewares. -/
def exceptionHandler (faults : Faults) : Raised → Option (Except String Response)
  | .domain exc => some (faults.made (domainExceptionHandler req ctx exc))
  | .http statusCode detail => some (faults.made (httpExceptionHandler req ctx statusCode detail))
  | .validation errors => some (faults.made (validationExceptionHandler req ctx errors))
  | .rateLimit detail => some (rateLimitExceptionHandler req ctx faults detail)
  | .authx exc text => some (faults.made (authxExceptionHandler req ctx exc text))
  | .exception _ => none
  | .base _ => none

end Handlers

/-! What every problem document has. -/

theorem made_ok {faults : Faults} {response response' : Response} (h : faults.made response = .ok response') :
    response = response' := by
  unfold Faults.made at h
  split at h
  · cases h
  · cases h
  · exact Except.ok.inj h

/-- The id of the context, if no extension takes its place. -/
theorem value_correlationId (req : Request) (ctx : Context) (args : ProblemArgs) :
    Fields.value (problemResponse req ctx args).payload "correlation_id" = some (.text (correlationId req ctx)) ↔
      ∀ extension ∈ args.extensions, extension.1 = "correlation_id" →
        extension.2 = .text (correlationId req ctx) :=
  Fields.value_setAll_iff args.distinct rfl

theorem correlationId_of_ne {req : Request} {ctx : Context} (h : ctx.requestId ≠ "") :
    correlationId req ctx = ctx.requestId := if_neg h

end FastiKit.Http
