import FastiKit.Http.Problem

/- The middlewares of `core/middlewares`, on one request.

   Correspondence (Python ↔ Lean):
     `CorrelationIdMiddleware.__call__`        ↔ `correlationIdMiddleware`
     `N1DetectorMiddleware.__call__`           ↔ `n1DetectorMiddleware`
     `SecurityHeadersMiddleware.__call__`      ↔ `securityHeadersMiddleware`
   The first two wrap `send` and catch every `Exception` around the application.
   What they send then goes to the `send` they were given, with the context
   variables reset: neither their own headers nor their own context are on it, and
   it is sent whatever the application has sent before. The log lines are left out.
   What the branch does is `crash`; here it is a response (`crashResponse`), and what
   follows when making one raises is in `Stack`.

   What is proved: the id is on every response just if no `Exception` reaches the
   correlation middleware (`correlation_carries_iff`), and the two catching
   middlewares send one response just if none does after a start
   (`catching_wellFormed_iff`). -/
namespace FastiKit.Http

open Asgi

/-- A call of an application; `did ()` is a database query. -/
abbrev Call := Run Unit Content Raised

abbrev App := Request → Context → Call

/-- What an application does next: it sends a message of its own, queries the
database, or sends a problem document. -/
inductive Step where
  | send (message : Message String)
  | query
  | problem (args : ProblemArgs)

/-- Any behaviour of an application. -/
structure Behaviour where
  steps : List Step
  raised : Option Raised

section Calls
variable (render : Fields Value → String)

def Response.events (response : Response) : List (Event Unit Content) := (response.messages render).map .sent

def Step.events (req : Request) (ctx : Context) : Step → List (Event Unit Content)
  | .send message => [.sent (message.mapBody .bytes)]
  | .query => [.did ()]
  | .problem args => (problemResponse req ctx args).events render

def Behaviour.app (b : Behaviour) : App := fun req ctx => ⟨b.steps.flatMap (Step.events render req ctx), b.raised⟩

/-- The `except Exception` of the two middlewares that catch, which does `crash`. -/
def crashed (crash : App) (req : Request) (ctx : Context) (exc : Raised) : Option Call :=
  if exc.isException then some (crash req ctx) else none

/-- The response of that branch, which is not kept from being made. -/
def crashResponse : App := fun req ctx => ⟨(internalServerError req ctx).events render, none⟩

/-- `headers.get("X-Request-ID") or str(uuid.uuid4())` -/
def requestId (req : Request) : String := orElse ((Fields.value req.headers "x-request-id").getD "") req.fresh.1

/-- The middleware, around `app`, with this branch. -/
def correlationIdOr (crash app : App) : App := fun req ctx =>
  if req.type ≠ .http then app req ctx
  else
    ((app req { ctx with requestId := requestId req }).rewrap fun _ message =>
      message.mapHeaders (Fields.set "x-request-id" (requestId req))).rescue (crashed crash req ctx)

def n1DetectorOr (crash app : App) : App := fun req ctx =>
  if req.type ≠ .http then app req ctx
  else
    ((app req { ctx with queryCount := 0 }).rewrap fun queries message =>
      message.mapHeaders (Fields.set "x-query-count" (toString queries.length))).rescue (crashed crash req ctx)

def correlationIdMiddleware (app : App) : App := correlationIdOr (crashResponse render) app

def n1DetectorMiddleware (app : App) : App := n1DetectorOr (crashResponse render) app

end Calls

/-- `SecurityHeadersMiddleware.headers` -/
def securityHeaders (includeHsts : Bool) : Fields String :=
  [("x-content-type-options", "nosniff"), ("referrer-policy", "strict-origin-when-cross-origin"),
    ("content-security-policy", "default-src 'self'; form-action 'self'; base-uri 'self'; " ++
      "object-src 'none'; frame-ancestors 'none'"),
    ("x-frame-options", "DENY")] ++
    if includeHsts then [("strict-transport-security", "max-age=31536000; includeSubDomains")] else []

def securityHeadersMiddleware (includeHsts : Bool) (app : App) : App := fun req ctx =>
  if req.type ≠ .http then app req ctx
  else (app req ctx).rewrap fun _ message => message.mapHeaders (Fields.setAll (securityHeaders includeHsts))

/-! What the application sends. -/

section Behaviours
variable (render : Fields Value → String) {req : Request} {ctx : Context} {b : Behaviour}

theorem requestId_ne (req : Request) : requestId req ≠ "" := by
  unfold requestId orElse
  split
  · exact req.fresh.2
  · next h => exact h

/-- An application's problem documents are made in the context it runs in. -/
theorem problem_of_app {payload : Fields Value} {more : Bool}
    (h : .body (.problem payload) more ∈ (b.app render req ctx).messages) :
    ∃ args, .problem args ∈ b.steps ∧ payload = (problemResponse req ctx args).payload := by
  obtain ⟨event, hevent, hsent⟩ := List.mem_filterMap.mp h
  obtain ⟨step, hstep, hin⟩ := List.mem_flatMap.mp hevent
  cases step with
  | send message =>
    rw [List.mem_singleton.mp hin] at hsent
    cases message <;> cases hsent
  | query =>
    rw [List.mem_singleton.mp hin] at hsent
    cases hsent
  | problem args =>
    refine ⟨args, hstep, ?_⟩
    simp only [Step.events, Response.events, Response.messages, List.map_cons, List.map_nil, List.mem_cons,
      List.not_mem_nil, or_false] at hin
    cases hin with
    | inl hhead =>
      rw [hhead] at hsent
      cases hsent
    | inr hbody =>
      rw [hbody] at hsent
      cases hsent
      rfl

theorem app_sends_problem (req : Request) (ctx : Context) {args : ProblemArgs} (h : .problem args ∈ b.steps) :
    .body (.problem (problemResponse req ctx args).payload) false ∈ (b.app render req ctx).messages := by
  have hevent : Event.sent (.body (.problem (problemResponse req ctx args).payload) false) ∈
      (b.app render req ctx).events := by
    refine List.mem_flatMap.mpr ⟨_, h, ?_⟩
    simp [Step.events, Response.events, Response.messages]
  exact List.mem_filterMap.mpr ⟨_, hevent, rfl⟩

/-- The messages of a step as the protocol sees them. -/
def Step.kinds : Step → List Kind
  | .send message => [message.kind]
  | .query => []
  | .problem _ => [.start, .final]

def Behaviour.kinds (b : Behaviour) : List Kind := b.steps.flatMap Step.kinds

theorem kind_mapBody {β γ : Type} (f : β → γ) (message : Message β) : (message.mapBody f).kind = message.kind := by
  cases message with
  | start status headers => rfl
  | body content more => cases more <;> rfl
  | other type => rfl

theorem kinds_app (req : Request) (ctx : Context) (b : Behaviour) : (b.app render req ctx).kinds = b.kinds := by
  unfold Run.kinds Run.messages Behaviour.app Behaviour.kinds
  induction b.steps with
  | nil => rfl
  | cons step steps ih =>
    rw [List.flatMap_cons, List.filterMap_append, List.map_append, ih, List.flatMap_cons]
    congr 1
    cases step with
    | send message => simp [Step.events, Step.kinds, kind_mapBody]
    | query => rfl
    | problem args => rfl

/-- The call ends with an exception that the middlewares catch. -/
def Escapes (raised : Option Raised) : Prop := ∃ exc, raised = some exc ∧ exc.isException = true

abbrev Behaviour.escapes (b : Behaviour) : Prop := Escapes b.raised

theorem crashed_of_escapes (crash : App) {call : Call} (h : Escapes call.raised) :
    call.raised.bind (crashed crash req ctx) = some (crash req ctx) := by
  obtain ⟨exc, hraised, hexc⟩ := h
  rw [hraised, Option.bind_some, crashed, if_pos hexc]

theorem crashed_of_not_escapes (crash : App) {call : Call} (h : ¬ Escapes call.raised) :
    call.raised.bind (crashed crash req ctx) = none := by
  cases hraised : call.raised with
  | none => rfl
  | some exc =>
    have hexc : ¬ exc.isException = true := fun hexc => h ⟨exc, hraised, hexc⟩
    rw [Option.bind_some, crashed, if_neg hexc]

theorem messages_crash (req : Request) (ctx : Context) :
    (crashResponse render req ctx).messages = (internalServerError req ctx).messages render := rfl

theorem kinds_crash (req : Request) (ctx : Context) : (crashResponse render req ctx).kinds = [.start, .final] := rfl

/-- The response of the `except` branch has the headers of its body only. -/
theorem headers_crash (req : Request) (ctx : Context) : ∃ headers,
    .start 500 headers ∈ (internalServerError req ctx).messages render ∧
      ∀ name, name ≠ "content-length" → name ≠ "content-type" → headers.value name = none := by
  refine ⟨_, List.mem_cons_self, ?_⟩
  intro name hlength htype
  simp [Fields.value, internalServerError, problemResponse, hlength.symm, htype.symm]

/-! The correlation id. -/

/-- Every response has the id in its header, and every problem document has it too. -/
structure Carries (id : String) (call : Call) : Prop where
  header : ∀ status headers, .start status headers ∈ call.messages → headers.value "x-request-id" = some id
  document : ∀ payload more, .body (.problem payload) more ∈ call.messages →
    payload.value "correlation_id" = some (.text id)

/-- A run in the request's context, through the header's `send`, carries the id just if
no document of the application puts another in its place. -/
theorem carries_rewrap_iff (req : Request) (ctx : Context) (b : Behaviour) :
    Carries (requestId req)
        ((b.app render req { ctx with requestId := requestId req }).rewrap fun _ message =>
          message.mapHeaders (Fields.set "x-request-id" (requestId req))) ↔
      ∀ args, .problem args ∈ b.steps → ∀ extension ∈ args.extensions, extension.1 = "correlation_id" →
        extension.2 = .text (requestId req) := by
  have hid : correlationId req { ctx with requestId := requestId req } = requestId req :=
    correlationId_of_ne (requestId_ne req)
  constructor
  · intro h args hargs
    obtain ⟨done, hbody⟩ :=
      Run.rewrap_mem (app_sends_problem render req { ctx with requestId := requestId req } hargs)
    have hvalue := h.document _ _ hbody
    have hextensions := value_correlationId req { ctx with requestId := requestId req } args
    rw [hid] at hextensions
    exact hextensions.mp hvalue
  · intro h
    refine ⟨?_, ?_⟩
    · intro status headers hstart
      obtain ⟨message, _, done, heq⟩ := Run.mem_rewrap hstart
      cases message with
      | start status' headers' =>
        rw [Message.mapHeaders, Message.start.injEq] at heq
        rw [heq.2, Fields.value_set, if_pos rfl]
      | body content more => cases heq
      | other type => cases heq
    · intro payload more hbody
      obtain ⟨message, hmessage, done, heq⟩ := Run.mem_rewrap hbody
      cases message with
      | start status' headers' => cases heq
      | body content more' =>
        cases heq
        obtain ⟨args, hargs, rfl⟩ := problem_of_app render hmessage
        have hextensions := value_correlationId req { ctx with requestId := requestId req } args
        rw [hid] at hextensions
        exact hextensions.mpr (h args hargs)
      | other type => cases heq

/-- **The correlation id on every response.** What leaves the middleware carries the
request's id just if no `Exception` reaches it and no problem document of the
application has a `correlation_id` of another value among its extensions. -/
theorem correlation_carries_iff {req : Request} (hhttp : req.type = .http) (ctx : Context) (b : Behaviour) :
    Carries (requestId req) (correlationIdMiddleware render (b.app render) req ctx) ↔
      ¬ b.escapes ∧ ∀ args, .problem args ∈ b.steps → ∀ extension ∈ args.extensions,
        extension.1 = "correlation_id" → extension.2 = .text (requestId req) := by
  have htype : ¬ req.type ≠ .http := not_not_intro hhttp
  unfold correlationIdMiddleware correlationIdOr
  rw [if_neg htype]
  by_cases hescapes : b.escapes
  · simp only [hescapes, not_true_eq_false, false_and, iff_false]
    intro h
    -- the response of the `except` branch has no such header
    obtain ⟨headers, hstart, hnone⟩ := headers_crash render req ctx
    have hin : Message.start 500 headers ∈ (((b.app render req { ctx with requestId := requestId req }).rewrap
        fun _ message => message.mapHeaders (Fields.set "x-request-id" (requestId req))).rescue
          (crashed (crashResponse render) req ctx)).messages := by
      rw [Run.messages_rescue (crashed_of_escapes (crashResponse render) hescapes), messages_crash]
      exact List.mem_append_right _ hstart
    have hvalue := h.header 500 headers hin
    rw [hnone "x-request-id" (by decide) (by decide)] at hvalue
    cases hvalue
  · rw [Run.rescue_eq_self (crashed_of_not_escapes (crashResponse render) hescapes), carries_rewrap_iff]
    simp [hescapes]

/-! One response. -/

/-- The two middlewares around an application, as `main.py` nests them. -/
def catching (app : App) : App := n1DetectorMiddleware render (correlationIdMiddleware render app)

theorem kinds_correlation {req : Request} (hhttp : req.type = .http) (ctx : Context) (b : Behaviour) :
    (b.escapes → (correlationIdMiddleware render (b.app render) req ctx).kinds = b.kinds ++ [.start, .final] ∧
      (correlationIdMiddleware render (b.app render) req ctx).raised = none) ∧
    (¬ b.escapes → (correlationIdMiddleware render (b.app render) req ctx).kinds = b.kinds ∧
      (correlationIdMiddleware render (b.app render) req ctx).raised = b.raised) := by
  have htype : ¬ req.type ≠ .http := not_not_intro hhttp
  unfold correlationIdMiddleware correlationIdOr
  rw [if_neg htype]
  have hkinds := Run.kinds_rewrap (f := fun _ message => message.mapHeaders (Fields.set "x-request-id" (requestId req)))
    (fun _ message => Message.kind_mapHeaders _ message)
    (b.app render req { ctx with requestId := requestId req })
  constructor
  · intro hescapes
    refine ⟨?_, Run.raised_rescue (crashed_of_escapes (crashResponse render) hescapes)⟩
    rw [Run.kinds_rescue (crashed_of_escapes (crashResponse render) hescapes), hkinds, kinds_app, kinds_crash]
  · intro hescapes
    rw [Run.rescue_eq_self (crashed_of_not_escapes (crashResponse render) hescapes)]
    exact ⟨hkinds.trans (kinds_app render req _ b), rfl⟩

/-- The outer of the two has nothing left to catch. -/
theorem kinds_catching {req : Request} (hhttp : req.type = .http) (ctx : Context) (b : Behaviour) :
    (catching render (b.app render) req ctx).kinds =
      (correlationIdMiddleware render (b.app render) req { ctx with queryCount := 0 }).kinds := by
  have htype : ¬ req.type ≠ .http := not_not_intro hhttp
  obtain ⟨hcaught, hpassed⟩ := kinds_correlation render hhttp { ctx with queryCount := 0 } b
  have hquiet : ¬ Escapes (correlationIdMiddleware render (b.app render) req { ctx with queryCount := 0 }).raised := by
    intro hescapes
    by_cases hinner : b.escapes
    · rw [(hcaught hinner).2] at hescapes
      obtain ⟨exc, hexc, _⟩ := hescapes
      cases hexc
    · rw [(hpassed hinner).2] at hescapes
      exact hinner hescapes
  unfold catching n1DetectorMiddleware n1DetectorOr
  rw [if_neg htype, Run.rescue_eq_self]
  · exact Run.kinds_rewrap (fun queries message => Message.kind_mapHeaders _ message) _
  · exact crashed_of_not_escapes (crashResponse render) hquiet

/-- **One response.** Around an application that keeps to the protocol, the two
middlewares send at most one start and nothing after the last body just if no
`Exception` reaches them once a response has been started. -/
theorem catching_wellFormed_iff {req : Request} (hhttp : req.type = .http) (ctx : Context) {b : Behaviour}
    (hlegal : Legal b.kinds) :
    WellFormed (catching render (b.app render) req ctx).kinds ↔ ¬ (b.escapes ∧ .start ∈ b.kinds) := by
  rw [kinds_catching render hhttp]
  obtain ⟨hcaught, hpassed⟩ := kinds_correlation render hhttp { ctx with queryCount := 0 } b
  obtain ⟨hwell, hfinal⟩ := hlegal.wellFormed
  by_cases hescapes : b.escapes
  · rw [(hcaught hescapes).1, wellFormed_append_iff]
    constructor
    · intro h hstarted
      exact h.1 hstarted.2
    · intro h
      have hstart : .start ∉ b.kinds := fun hin => h ⟨hescapes, hin⟩
      exact ⟨hstart, hfinal hstart⟩
  · rw [(hpassed hescapes).1]
    simp [hwell, hescapes]

end Behaviours

/-! A route that raises. -/

def sampleRender (payload : Fields Value) : String := toString (repr payload)

def sampleRequest : Request := ⟨.http, "/api/v1/users/me", [("x-request-id", "abc-123")], ⟨"b1e1854f", by decide⟩⟩

/-- A route that answers in one piece. -/
def answers : Behaviour := ⟨[.query, .send (.start 200 []), .send (.body "hello" false)], none⟩

/-- A route that raises what no handler is for. -/
def boom : Behaviour := ⟨[.query], some (.exception "boom")⟩

/-- A stream whose source fails when its first part is out. -/
def failingStream : Behaviour := ⟨[.send (.start 200 []), .send (.body "first" true)], some (.exception "reset by peer")⟩

theorem correlation_carries_iff_sample :
    Carries "abc-123" (correlationIdMiddleware sampleRender (answers.app sampleRender) sampleRequest .default) := by
  refine (correlation_carries_iff sampleRender (show sampleRequest.type = .http from rfl) .default answers).mpr ⟨?_, ?_⟩
  · intro h
    obtain ⟨exc, hexc, _⟩ := h
    cases hexc
  · intro args hargs
    simp [answers] at hargs

/-- The 500 of a crash has no `X-Request-ID`, and its document has the id `-`. -/
theorem crash_without_correlation :
    ¬ Carries (requestId sampleRequest)
      (correlationIdMiddleware sampleRender (boom.app sampleRender) sampleRequest .default) := by
  intro h
  have hid := h.document _ false (List.mem_of_getElem? (i := 1) rfl)
  exact absurd hid (by decide)

theorem catching_wellFormed_iff_sample :
    WellFormed (catching sampleRender (answers.app sampleRender) sampleRequest .default).kinds :=
  (catching_wellFormed_iff sampleRender (show sampleRequest.type = .http from rfl) .default (b := answers)
    (by decide)).mpr (by
    intro h
    obtain ⟨⟨exc, hexc, _⟩, _⟩ := h
    cases hexc)

/-- A stream that fails is followed by a second start. -/
theorem failing_stream_starts_twice : Legal failingStream.kinds ∧
    (catching sampleRender (failingStream.app sampleRender) sampleRequest .default).kinds =
      [.start, .more, .start, .final] ∧
    ¬ WellFormed (catching sampleRender (failingStream.app sampleRender) sampleRequest .default).kinds := by
  have hkinds : (catching sampleRender (failingStream.app sampleRender) sampleRequest .default).kinds =
      [.start, .more, .start, .final] := rfl
  refine ⟨by decide, hkinds, ?_⟩
  rw [hkinds]
  decide

end FastiKit.Http
