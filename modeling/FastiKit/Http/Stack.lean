import FastiKit.Http.Middlewares

/- The application `main.py` puts together: what the hardening headers are on.

   Correspondence (Python ↔ Lean):
     the `add_middleware` calls                ↔ `mainApp`
     `install_problem_handlers`                ↔ the handlers `mainApp` gives to `Layers.exceptions`
   The middleware added last is the outermost. Those of Starlette and of other
   packages are parameters (`Layers`), with what they are documented to do
   (`Layers.Documented`). The headers are set by a layer inside of the one that
   catches what the routes raise, so the response of the latter is without them; and
   so is the server's own, for an exception that nothing in the application answers. -/
namespace FastiKit.Http

open Asgi

/-- `settings.environment` -/
inductive Environment where
  | local
  | production
  deriving DecidableEq, Repr

/-- The middlewares that are not part of the repository. The first and the last are
given handlers, which may raise. -/
structure Layers where
  exceptions : (Request → Context → Raised → Option (Except String Response)) → App → App
  gzip : App → App
  cors : App → App
  proxyHeaders : App → App
  instrumentator : App → App
  serverErrors : (Request → Context → Except String Response) → App → App

section Stack
variable (render : Fields Value → String) (layers : Layers) (faults : Faults)

/-- The `except Exception` branch: its response, or what making it raises. -/
def crash : App := fun req ctx =>
  match faults.made (internalServerError req ctx) with
  | .ok response => ⟨response.events render, none⟩
  | .error text => ⟨[], some (.exception text)⟩

/-- The handlers of `install_problem_handlers` and `install_auth_error_handlers`. -/
def handlers (req : Request) (ctx : Context) : Raised → Option (Except String Response) := exceptionHandler req ctx faults

/-- The application of `main.py`, from the routes outwards. -/
def mainApp (environment : Environment) (routes : App) : App :=
  let handled := layers.exceptions (handlers faults) routes
  let hardened := securityHeadersMiddleware (environment = .production) (layers.gzip handled)
  let correlated := correlationIdOr (crash render faults) hardened
  let counted := if environment = .local then n1DetectorOr (crash render faults) correlated else correlated
  layers.serverErrors (fun req ctx => unhandledExceptionHandler req ctx faults)
    (layers.instrumentator (layers.proxyHeaders (layers.cors counted)))

end Stack

/-- The same message as far as the headers of these names go. -/
def Same (names : List String) (message message' : Message Content) : Prop :=
  (∃ status headers headers', message = .start status headers ∧ message' = .start status headers' ∧
    ∀ name ∈ names, headers'.value name = headers.value name) ∨ message.kind ≠ .start ∧ message' = message

/-- A layer that hands the request on to the application and changes nothing of what
comes back but headers of other names. -/
def Passes (names : List String) (layer : App → App) (req : Request) : Prop :=
  ∀ app ctx, (layer app req ctx).raised = (app req ctx).raised ∧
    List.Forall₂ (Same names) (app req ctx).messages (layer app req ctx).messages

/-- What the layers do with a request that reaches the routes. -/
structure Layers.Documented (layers : Layers) (render : Fields Value → String) (names : List String)
    (req : Request) : Prop where
  /-- Nothing to handle, or no handler but the one of `Exception`. -/
  unhandled : ∀ handlers app ctx, (app req ctx).raised.bind (handlers req ctx) = none →
    layers.exceptions handlers app req ctx = app req ctx
  /-- A handler's response is sent if none was started. -/
  handled : ∀ handlers app ctx response, (app req ctx).raised.bind (handlers req ctx) = some (.ok response) →
    .start ∉ (app req ctx).kinds →
      layers.exceptions handlers app req ctx = ⟨(app req ctx).events ++ response.events render, none⟩
  /-- What a handler raises is raised. -/
  raising : ∀ handlers app ctx text, (app req ctx).raised.bind (handlers req ctx) = some (.error text) →
    .start ∉ (app req ctx).kinds →
      layers.exceptions handlers app req ctx = ⟨(app req ctx).events, some (.exception text)⟩
  /-- After a start no handler is called, and Starlette raises an error of its own. -/
  late : ∀ handlers app ctx result, (app req ctx).raised.bind (handlers req ctx) = some result →
    .start ∈ (app req ctx).kinds →
      ∃ text, layers.exceptions handlers app req ctx = ⟨(app req ctx).events, some (.exception text)⟩
  gzip : ∀ app ctx, (layers.gzip app req ctx).raised = (app req ctx).raised
  cors : Passes names layers.cors req
  proxyHeaders : Passes names layers.proxyHeaders req
  instrumentator : Passes names layers.instrumentator req
  serverErrors : ∀ handler app ctx, ¬ Escapes (app req ctx).raised → layers.serverErrors handler app req ctx = app req ctx
  /-- Where the handler of `Exception` raises, nothing is sent for the exception. -/
  serverErrorsRaising : ∀ handler app ctx text, handler req ctx = .error text → Escapes (app req ctx).raised →
    layers.serverErrors handler app req ctx = ⟨(app req ctx).events, some (.exception text)⟩

/-- Every start has all of these headers. -/
def Hardened (fields : Fields String) (messages : List (Message Content)) : Prop :=
  ∀ status headers, .start status headers ∈ messages → ∀ field ∈ fields, headers.value field.1 = some field.2

/-- Every response has the headers, and no exception is left to the server, which
answers those with a 500 of its own. -/
structure Served (includeHsts : Bool) (call : Call) : Prop where
  hardened : Hardened (securityHeaders includeHsts) call.messages
  quiet : ¬ Escapes call.raised

/-! What a layer keeps. -/

theorem same_mapHeaders {names : List String} {f : Fields String → Fields String}
    (hf : ∀ headers, ∀ name ∈ names, (f headers).value name = headers.value name) (message : Message Content) :
    Same names message (message.mapHeaders f) := by
  cases message with
  | start status headers => exact .inl ⟨status, headers, f headers, rfl, rfl, hf headers⟩
  | body content more => cases more <;> exact .inr ⟨nofun, rfl⟩
  | other type => exact .inr ⟨nofun, rfl⟩

theorem same_refl (names : List String) (message : Message Content) : Same names message message := by
  cases message with
  | start status headers => exact .inl ⟨status, headers, headers, rfl, rfl, fun _ _ => rfl⟩
  | body content more => cases more <;> exact .inr ⟨by simp [Message.kind], rfl⟩
  | other type => exact .inr ⟨by simp [Message.kind], rfl⟩

/-- The headers are on the starts of one run just if they are on those of the other. -/
theorem hardened_iff_of_same {fields : Fields String} {messages messages' : List (Message Content)}
    (h : List.Forall₂ (Same (fields.map Prod.fst)) messages messages') :
    Hardened fields messages ↔ Hardened fields messages' := by
  unfold Hardened
  induction h with
  | nil => simp
  | @cons message message' rest rest' hsame _ ih =>
    simp only [List.mem_cons, or_imp, forall_and]
    refine and_congr ?_ ih
    obtain ⟨status, headers, headers', rfl, rfl, hvalues⟩ | ⟨hkind, rfl⟩ := hsame
    · constructor
      · intro hstart status' found heq field hfield
        cases heq
        rw [hvalues field.1 (List.mem_map_of_mem hfield)]
        exact hstart status headers rfl field hfield
      · intro hstart status' found heq field hfield
        cases heq
        rw [← hvalues field.1 (List.mem_map_of_mem hfield)]
        exact hstart status headers' rfl field hfield
    · exact Iff.rfl

/-- A wrapped `send` that sets another header. -/
theorem same_rewrap {names : List String} {f : List Unit → Fields String → Fields String}
    (hf : ∀ done headers, ∀ name ∈ names, (f done headers).value name = headers.value name) (call : Call) :
    List.Forall₂ (Same names) call.messages
      (call.rewrap fun done message => message.mapHeaders (f done)).messages := by
  refine (Run.messages_rewrap _ call).imp ?_
  intro message message' hmessage
  obtain ⟨done, rfl⟩ := hmessage
  exact same_mapHeaders (hf done) message

/-! From the routes outwards. -/

section Outwards
variable {render : Fields Value → String} {layers : Layers} {req : Request} {includeHsts : Bool}

/-- The names of the hardening headers. -/
abbrev hardening (includeHsts : Bool) : List String := (securityHeaders includeHsts).map Prod.fst

/-- What the routes raise is past every handler: none answers it, as it has none or its
handler raises, or a response was started. -/
def Behaviour.unhandled (faults : Faults) (req : Request) (ctx : Context) (b : Behaviour) : Prop :=
  ∃ exc, b.raised = some exc ∧ exc.isException = true ∧
    ((∀ response, exceptionHandler req ctx faults exc ≠ some (.ok response)) ∨ .start ∈ b.kinds)

theorem exceptionHandler_base (ctx : Context) (faults : Faults) {exc : Raised} (h : exc.isException = false) :
    exceptionHandler req ctx faults exc = none := by
  cases exc with
  | base text => rfl
  | _ => cases h

/-- What comes out of Starlette's handling raises just if the routes' exception is past it. -/
theorem escapes_exceptions (hlayers : layers.Documented render (hardening includeHsts) req) (faults : Faults)
    (ctx : Context) (b : Behaviour) :
    Escapes (layers.exceptions (handlers faults) (b.app render) req ctx).raised ↔ b.unhandled faults req ctx := by
  have hkinds : .start ∈ (b.app render req ctx).kinds ↔ .start ∈ b.kinds := by rw [kinds_app]
  have hraised : (b.app render req ctx).raised = b.raised := rfl
  cases hresult : (b.app render req ctx).raised.bind (handlers faults req ctx) with
  | none =>
    -- there is nothing to handle, or no handler for it
    rw [hlayers.unhandled (handlers faults) _ _ hresult]
    constructor
    · intro hescapes
      obtain ⟨exc, hexc, hcaught⟩ := hescapes
      rw [hexc, Option.bind_some] at hresult
      refine ⟨exc, hexc, hcaught, .inl ?_⟩
      intro response hsome
      rw [handlers, hsome] at hresult
      cases hresult
    · intro h
      obtain ⟨exc, hexc, hcaught, _⟩ := h
      exact ⟨exc, hexc, hcaught⟩
  | some result =>
    obtain ⟨exc, hexc, hhandler⟩ := Option.bind_eq_some_iff.mp hresult
    have hcaught : exc.isException = true := by
      by_contra hbase
      rw [handlers, exceptionHandler_base ctx faults (Bool.eq_false_iff.mpr hbase)] at hhandler
      cases hhandler
    by_cases hstarted : .start ∈ (b.app render req ctx).kinds
    · obtain ⟨text, hlate⟩ := hlayers.late (handlers faults) _ _ _ hresult hstarted
      rw [hlate]
      constructor
      · exact fun _ => ⟨exc, hexc, hcaught, .inr (hkinds.mp hstarted)⟩
      · exact fun _ => ⟨_, rfl, rfl⟩
    · cases result with
      | error text =>
        rw [hlayers.raising (handlers faults) _ _ _ hresult hstarted]
        constructor
        · refine fun _ => ⟨exc, hexc, hcaught, .inl ?_⟩
          intro response hsome
          rw [handlers, hsome] at hhandler
          cases hhandler
        · exact fun _ => ⟨_, rfl, rfl⟩
      | ok response =>
        rw [hlayers.handled (handlers faults) _ _ _ hresult hstarted]
        constructor
        · intro hescapes
          obtain ⟨_, hnone, _⟩ := hescapes
          cases hnone
        · intro h
          obtain ⟨exc', hexc', _, hpast⟩ := h
          obtain rfl : exc = exc' := Option.some.inj (hexc.symm.trans hexc')
          cases hpast with
          | inl hnot => exact absurd hhandler (hnot response)
          | inr hin => exact absurd (hkinds.mpr hin) hstarted

theorem nodup_hardening (includeHsts : Bool) : (hardening includeHsts).Nodup := by
  cases includeHsts <;> decide

/-- The layer of the headers puts them on every start that passes it. -/
theorem hardened_securityHeaders (hhttp : req.type = .http) (app : App) (ctx : Context) :
    Hardened (securityHeaders includeHsts) (securityHeadersMiddleware includeHsts app req ctx).messages ∧
      (securityHeadersMiddleware includeHsts app req ctx).raised = (app req ctx).raised := by
  have htype : ¬ req.type ≠ .http := not_not_intro hhttp
  unfold securityHeadersMiddleware
  rw [if_neg htype]
  refine ⟨?_, rfl⟩
  intro status headers hstart field hfield
  obtain ⟨message, _, done, heq⟩ := Run.mem_rewrap hstart
  cases message with
  | start status' headers' =>
    rw [Message.mapHeaders, Message.start.injEq] at heq
    rw [heq.2]
    exact Fields.value_setAll (nodup_hardening includeHsts) headers' hfield
  | body content more => cases heq
  | other type => cases heq

/-- The two runs are one as far as the headers go, and raise both or neither. -/
structure Alike (includeHsts : Bool) (call call' : Call) : Prop where
  escapes : Escapes call.raised ↔ Escapes call'.raised
  messages : List.Forall₂ (Same (hardening includeHsts)) call.messages call'.messages

theorem Alike.served {call call' : Call} (h : Alike includeHsts call call') :
    Served includeHsts call ↔ Served includeHsts call' := by
  have hhardened : Hardened (securityHeaders includeHsts) call.messages ↔
      Hardened (securityHeaders includeHsts) call'.messages := hardened_iff_of_same h.messages
  constructor
  · exact fun hs => ⟨hhardened.mp hs.hardened, fun he => hs.quiet (h.escapes.mpr he)⟩
  · exact fun hs => ⟨hhardened.mpr hs.hardened, fun he => hs.quiet (h.escapes.mp he)⟩

theorem Passes.alike {layer : App → App} (h : Passes (hardening includeHsts) layer req) (app : App) (ctx : Context) :
    Alike includeHsts (app req ctx) (layer app req ctx) := by
  obtain ⟨hraised, hmessages⟩ := h app ctx
  exact ⟨by rw [hraised], hmessages⟩

/-- The run does not raise, or the response of a branch that catches it cannot be made. -/
def Unanswered (faults : Faults) (req : Request) (ctx : Context) (call : Call) : Prop :=
  Escapes call.raised → ∃ text, faults.made (internalServerError req ctx) = .error text

theorem Unanswered.of_alike {faults : Faults} {ctx : Context} {call call' : Call} (h : Unanswered faults req ctx call)
    (halike : Alike includeHsts call call') : Unanswered faults req ctx call' :=
  fun hescapes => h (halike.escapes.mpr hescapes)

/-- A `send` that sets another header, in a branch that catches and answers nothing. -/
theorem alike_rescue {faults : Faults} {ctx : Context} {call : Call} (h : Unanswered faults req ctx call)
    {f : List Unit → Fields String → Fields String}
    (hf : ∀ done headers, ∀ name ∈ hardening includeHsts, (f done headers).value name = headers.value name) :
    Alike includeHsts call
      ((call.rewrap fun done message => message.mapHeaders (f done)).rescue (crashed (crash render faults) req ctx)) := by
  by_cases hescapes : Escapes call.raised
  · obtain ⟨text, hraise⟩ := h hescapes
    have hcrash : crash render faults req ctx = ⟨[], some (.exception text)⟩ := by simp only [crash, hraise]
    have hcall : ∀ g, Escapes (call.rewrap g).raised := fun _ => hescapes
    have hbind := @crashed_of_escapes req ctx (crash render faults) _ (hcall fun done message => message.mapHeaders (f done))
    rw [hcrash] at hbind
    refine ⟨?_, ?_⟩
    · rw [Run.raised_rescue hbind]
      exact ⟨fun _ => ⟨_, rfl, rfl⟩, fun _ => hescapes⟩
    · rw [Run.messages_rescue hbind]
      show List.Forall₂ _ _ (_ ++ [])
      rw [List.append_nil]
      exact same_rewrap hf call
  · have hcall : ∀ g, ¬ Escapes (call.rewrap g).raised := fun _ => hescapes
    rw [Run.rescue_eq_self (crashed_of_not_escapes _ (hcall _))]
    exact ⟨Iff.rfl, same_rewrap hf call⟩

/-- Neither of the two middlewares sets a hardening header. -/
theorem value_set_other {name : String} {a : String} (hname : name ∉ hardening includeHsts) (headers : Fields String) :
    ∀ other ∈ hardening includeHsts, (Fields.set name a headers).value other = headers.value other := by
  intro other hother
  rw [Fields.value_set, if_neg]
  rintro rfl
  exact hname hother

theorem requestId_not_hardening (includeHsts : Bool) : "x-request-id" ∉ hardening includeHsts := by
  cases includeHsts <;> simp [securityHeaders]

theorem queryCount_not_hardening (includeHsts : Bool) : "x-query-count" ∉ hardening includeHsts := by
  cases includeHsts <;> simp [securityHeaders]

theorem alike_correlation (hhttp : req.type = .http) (render : Fields Value → String) (includeHsts : Bool)
    {faults : Faults} {app : App} {ctx : Context}
    (h : Unanswered faults req ctx (app req { ctx with requestId := requestId req })) :
    Alike includeHsts (app req { ctx with requestId := requestId req }) (correlationIdOr (crash render faults) app req ctx) := by
  have htype : ¬ req.type ≠ .http := not_not_intro hhttp
  unfold correlationIdOr
  rw [if_neg htype]
  exact alike_rescue h fun _ headers => value_set_other (requestId_not_hardening includeHsts) headers

theorem alike_n1Detector (hhttp : req.type = .http) (render : Fields Value → String) (includeHsts : Bool)
    {faults : Faults} {app : App} {ctx : Context} (h : Unanswered faults req ctx (app req { ctx with queryCount := 0 })) :
    Alike includeHsts (app req { ctx with queryCount := 0 }) (n1DetectorOr (crash render faults) app req ctx) := by
  have htype : ¬ req.type ≠ .http := not_not_intro hhttp
  unfold n1DetectorOr
  rw [if_neg htype]
  exact alike_rescue h fun _ headers => value_set_other (queryCount_not_hardening includeHsts) headers

/-- Of a context, a document has the id only. -/
theorem problemResponse_congr {ctx ctx' : Context} (h : ctx'.requestId = ctx.requestId) :
    problemResponse req ctx' = problemResponse req ctx := by
  funext args
  simp only [problemResponse, correlationId, h]

theorem exceptionHandler_congr {ctx ctx' : Context} (h : ctx'.requestId = ctx.requestId) (faults : Faults) :
    exceptionHandler req ctx' faults = exceptionHandler req ctx faults := by
  funext exc
  cases exc <;> simp only [exceptionHandler, domainExceptionHandler, httpExceptionHandler, validationExceptionHandler,
    rateLimitExceptionHandler, authxExceptionHandler, problemResponse_congr h]

theorem internalServerError_congr {ctx ctx' : Context} (h : ctx'.requestId = ctx.requestId) :
    internalServerError req ctx' = internalServerError req ctx := by
  simp only [internalServerError, problemResponse_congr h]

/-- What the correlation middleware cannot answer, nothing can. -/
theorem unanswered_correlation (hhttp : req.type = .http) (render : Fields Value → String) {faults : Faults} {app : App}
    {ctx ctx' : Context} (hctx : ctx'.requestId = ctx.requestId) :
    Unanswered faults req ctx (correlationIdOr (crash render faults) app req ctx') := by
  have htype : ¬ req.type ≠ .http := not_not_intro hhttp
  unfold correlationIdOr
  rw [if_neg htype]
  intro hout
  by_cases hescapes : Escapes (app req { ctx' with requestId := requestId req }).raised
  · have hcall : ∀ g, Escapes ((app req { ctx' with requestId := requestId req }).rewrap g).raised := fun _ => hescapes
    rw [Run.raised_rescue (crashed_of_escapes _ (hcall _)), crash, internalServerError_congr hctx] at hout
    cases hmade : faults.made (internalServerError req ctx) with
    | error text => exact ⟨text, rfl⟩
    | ok response =>
      rw [hmade] at hout
      obtain ⟨exc, hnone, _⟩ := hout
      cases hnone
  · have hcall : ∀ g, ¬ Escapes ((app req { ctx' with requestId := requestId req }).rewrap g).raised := fun _ => hescapes
    rw [Run.rescue_eq_self (crashed_of_not_escapes _ (hcall _))] at hout
    exact absurd hout hescapes

theorem alike_refl (includeHsts : Bool) (call : Call) : Alike includeHsts call call := by
  refine ⟨Iff.rfl, List.forall₂_same.mpr ?_⟩
  intro message _
  exact same_refl _ message

/-- The outermost layer sends a response for what is left, if it can be made. -/
theorem alike_serverErrors (hlayers : layers.Documented render (hardening includeHsts) req) {faults : Faults} {app : App}
    {ctx : Context} (h : Unanswered faults req ctx (app req ctx)) : Alike includeHsts (app req ctx)
      (layers.serverErrors (fun req ctx => unhandledExceptionHandler req ctx faults) app req ctx) := by
  by_cases hescapes : Escapes (app req ctx).raised
  · obtain ⟨text, hraise⟩ := h hescapes
    rw [hlayers.serverErrorsRaising _ app ctx text hraise hescapes]
    exact ⟨⟨fun _ => ⟨_, rfl, rfl⟩, fun _ => hescapes⟩, (alike_refl includeHsts (app req ctx)).messages⟩
  · rw [hlayers.serverErrors _ app ctx hescapes]
    exact alike_refl includeHsts (app req ctx)

/-- The layers around the correlation middleware keep what it lets out. -/
theorem served_outer_iff (hhttp : req.type = .http) (environment : Environment) {faults : Faults}
    (hlayers : layers.Documented render (hardening includeHsts) req) {app : App} {ctx : Context}
    (h : ∀ ctx', ctx'.requestId = ctx.requestId → Unanswered faults req ctx (app req ctx')) :
    ∃ ctx', ctx'.requestId = ctx.requestId ∧ (Served includeHsts (layers.serverErrors
      (fun req ctx => unhandledExceptionHandler req ctx faults) (layers.instrumentator (layers.proxyHeaders
        (layers.cors (if environment = .local then n1DetectorOr (crash render faults) app else app)))) req ctx) ↔
          Served includeHsts (app req ctx')) := by
  -- through the counting middleware, where there is one
  obtain ⟨ctx', hctx', hcounted⟩ : ∃ ctx', ctx'.requestId = ctx.requestId ∧ Alike includeHsts (app req ctx')
      ((if environment = .local then n1DetectorOr (crash render faults) app else app) req ctx) := by
    by_cases hlocal : environment = .local
    · rw [if_pos hlocal]
      exact ⟨{ ctx with queryCount := 0 }, rfl, alike_n1Detector hhttp render includeHsts (h _ rfl)⟩
    · rw [if_neg hlocal]
      exact ⟨ctx, rfl, alike_refl includeHsts _⟩
  generalize (if environment = .local then n1DetectorOr (crash render faults) app else app) = counted at hcounted ⊢
  have hcors := hlayers.cors.alike counted ctx
  have hproxy := hlayers.proxyHeaders.alike (layers.cors counted) ctx
  have hinstrumentator := hlayers.instrumentator.alike (layers.proxyHeaders (layers.cors counted)) ctx
  have hleft := (((h ctx' hctx').of_alike hcounted).of_alike hcors).of_alike hproxy |>.of_alike hinstrumentator
  refine ⟨ctx', hctx', ?_⟩
  rw [← (alike_serverErrors hlayers hleft).served, ← hinstrumentator.served, ← hproxy.served, ← hcors.served,
    hcounted.served]

/-- The correlation middleware keeps the headers, and answers what it catches without them. -/
theorem served_correlation_iff (hhttp : req.type = .http) {faults : Faults} {app : App} {ctx : Context}
    (happ : Hardened (securityHeaders includeHsts) (app req { ctx with requestId := requestId req }).messages) :
    Served includeHsts (correlationIdOr (crash render faults) app req ctx) ↔
      ¬ Escapes (app req { ctx with requestId := requestId req }).raised := by
  by_cases hanswered : Unanswered faults req ctx (app req { ctx with requestId := requestId req })
  · rw [← (alike_correlation hhttp render includeHsts hanswered).served]
    exact ⟨fun h => h.quiet, fun h => ⟨happ, h⟩⟩
  · -- it is a 500 that the inner layer has not seen
    obtain ⟨hescapes, hmade⟩ := Classical.not_imp.mp hanswered
    simp only [hescapes, not_true_eq_false, iff_false]
    intro hserved
    have htype : ¬ req.type ≠ .http := not_not_intro hhttp
    have hcrash : crash render faults req ctx = crashResponse render req ctx := by
      unfold crash
      cases hresult : faults.made (internalServerError req ctx) with
      | error text => exact absurd ⟨text, hresult⟩ hmade
      | ok response =>
        have hsame : internalServerError req ctx = response := made_ok hresult
        rw [← hsame]
        rfl
    have hcall : ∀ g, Escapes ((app req { ctx with requestId := requestId req }).rewrap g).raised := fun _ => hescapes
    obtain ⟨headers, hstart, hnone⟩ := headers_crash render req ctx
    have hfield := hserved.hardened 500 headers (by
      unfold correlationIdOr
      rw [if_neg htype, Run.messages_rescue (crashed_of_escapes _ (hcall _)), hcrash, messages_crash]
      exact List.mem_append_right _ hstart) ("x-content-type-options", "nosniff") (by simp [securityHeaders])
    rw [hnone "x-content-type-options" (by decide) (by decide)] at hfield
    cases hfield

end Outwards

/-- **The hardening headers on every response.** For a request that reaches the routes,
every response has them, and none is left to the server, just if the routes raise
nothing that is past the handlers of problems: an `Exception` that has none or whose
handler raises, or any after a response was started. -/
theorem hardening_headers_iff (render : Fields Value → String) {layers : Layers} {environment : Environment}
    {req : Request} (hhttp : req.type = .http)
    (hlayers : layers.Documented render (hardening (environment = .production)) req) (faults : Faults)
    (ctx : Context) (b : Behaviour) :
    Served (environment = .production) (mainApp render layers faults environment (b.app render) req ctx) ↔
      ¬ b.unhandled faults req { ctx with requestId := requestId req } := by
  unfold mainApp
  generalize happ : securityHeadersMiddleware (environment = .production)
    (layers.gzip (layers.exceptions (handlers faults) (b.app render))) = app
  have hleft : ∀ ctx', ctx'.requestId = ctx.requestId →
      Unanswered faults req ctx (correlationIdOr (crash render faults) app req ctx') :=
    fun ctx' hctx' => unanswered_correlation hhttp render hctx'
  obtain ⟨ctx', hctx', houter⟩ := served_outer_iff hhttp environment hlayers hleft
  subst happ
  rw [houter, served_correlation_iff hhttp (hardened_securityHeaders hhttp _ _).1, (hardened_securityHeaders hhttp _ _).2,
    hlayers.gzip, escapes_exceptions hlayers]
  -- the count of the queries is on no document
  have hcongr := @exceptionHandler_congr req { ctx with requestId := requestId req }
    { ctx' with requestId := requestId req } rfl faults
  simp only [Behaviour.unhandled, hcongr]

/-- Nothing raises while a response is made. -/
def noFaults : Faults := ⟨none, fun _ => none, .ok []⟩

/-- The layers as they treat a request without `Origin` and a small response. -/
def sampleLayers : Layers where
  exceptions handlers app := fun req ctx =>
    match (app req ctx).raised.bind (handlers req ctx) with
    | none => app req ctx
    | some result =>
      if .start ∈ (app req ctx).kinds then
        ⟨(app req ctx).events, some (.exception "Caught handled exception, but response already started.")⟩
      else
        match result with
        | .ok response => ⟨(app req ctx).events ++ response.events sampleRender, none⟩
        | .error text => ⟨(app req ctx).events, some (.exception text)⟩
  gzip := id
  cors := id
  proxyHeaders := id
  instrumentator := id
  serverErrors handler app := fun req ctx =>
    match (app req ctx).raised.bind (fun exc => if exc.isException then some exc else none) with
    | none => app req ctx
    | some exc =>
      match handler req ctx with
      | .ok response => ⟨(app req ctx).events ++ response.events sampleRender, some exc⟩
      | .error text => ⟨(app req ctx).events, some (.exception text)⟩

theorem passes_id (names : List String) (req : Request) : Passes names id req := by
  intro app ctx
  exact ⟨rfl, List.forall₂_same.mpr (fun message _ => same_refl names message)⟩

theorem sampleLayers_documented (names : List String) (req : Request) :
    sampleLayers.Documented sampleRender names req where
  unhandled handlers app ctx h := by simp only [sampleLayers, h]
  handled handlers app ctx response h hstart := by simp only [sampleLayers, h, if_neg hstart]
  raising handlers app ctx text h hstart := by simp only [sampleLayers, h, if_neg hstart]
  late handlers app ctx result h hstart := ⟨_, by simp only [sampleLayers, h, if_pos hstart]; rfl⟩
  gzip app ctx := rfl
  cors := passes_id names req
  proxyHeaders := passes_id names req
  instrumentator := passes_id names req
  serverErrors handler app ctx h := by
    have hnone : (app req ctx).raised.bind (fun exc => if exc.isException then some exc else none) = none := by
      cases hraised : (app req ctx).raised with
      | none => rfl
      | some exc => exact if_neg (fun hexc => h ⟨exc, hraised, hexc⟩)
    simp only [sampleLayers, hnone]
  serverErrorsRaising handler app ctx text hraise h := by
    obtain ⟨exc, hraised, hexc⟩ := h
    simp only [sampleLayers, hraised, Option.bind_some, if_pos hexc, hraise]

theorem hardening_headers_iff_sample :
    Served true (mainApp sampleRender sampleLayers noFaults .production (answers.app sampleRender) sampleRequest .default) := by
  have hlayers : sampleLayers.Documented sampleRender
      (hardening (Environment.production = Environment.production)) sampleRequest := sampleLayers_documented _ _
  refine (hardening_headers_iff sampleRender rfl hlayers noFaults .default answers).mpr ?_
  intro h
  obtain ⟨exc, hexc, _⟩ := h
  cases hexc

/-- What the routes raise comes out as a 500 without the headers. -/
theorem crash_without_hardening :
    sampleLayers.Documented sampleRender (hardening true) sampleRequest ∧
      ¬ Hardened (securityHeaders true)
        (mainApp sampleRender sampleLayers noFaults .production (boom.app sampleRender) sampleRequest .default).messages := by
  refine ⟨sampleLayers_documented _ _, ?_⟩
  intro h
  have hfield := h 500 _ (List.mem_of_getElem? (i := 0) rfl) ("x-frame-options", "DENY") (by decide)
  exact absurd hfield (by decide)

end FastiKit.Http
