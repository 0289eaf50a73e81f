import AegisRuntime.OperatorGate

/-!
# The routes of the gateway

`create_router`: the table of routes, the operator gate around all of them and the
CORS layer around the gate. Which requests reach which handler, and what a request
without the token can tell from the answers.
-/

namespace AegisRuntime.GatewayRoutes

open OperatorGate

/-- The handlers. -/
inductive Handler where
  | health
  | chat
  | agentRun
  | triggerHeartbeat
  | sseEvents
  | discordRelay
  | shell
  | createTask
  | listTasks
  | listSkills
  | executeSkill
  | openaiCompletions
  | openaiModels
  | probe
  | ws
  deriving DecidableEq,Repr

/-- A path with the handlers of its methods. -/
structure Route where
  /-- The path. -/
  path : String
  /-- The handlers. -/
  methods : List (Method×Handler)

/-- `routing::get`: the method `HEAD` is served too. -/
def get (handler : Handler) : List (Method×Handler) := [(.get,handler),(.head,handler)]

/-- `routing::post`. -/
def post (handler : Handler) : List (Method×Handler) := [(.post,handler)]

/-- The routes of `create_router`. -/
def ROUTES : List Route :=
  [⟨"/health",get .health⟩,
    ⟨"/api/v1/health",get .health⟩,
    ⟨"/api/v1/chat",post .chat⟩,
    ⟨"/api/v1/agent/run",post .agentRun⟩,
    ⟨"/api/v1/heartbeat/tick",post .triggerHeartbeat⟩,
    ⟨"/api/v1/events",get .sseEvents⟩,
    ⟨"/events",get .sseEvents⟩,
    ⟨"/api/v1/discord/relay",post .discordRelay⟩,
    ⟨"/api/v1/shell",post .shell⟩,
    ⟨"/api/v1/tasks",post .createTask++get .listTasks⟩,
    ⟨"/api/v1/skills",get .listSkills⟩,
    ⟨"/api/v1/skills/execute",post .executeSkill⟩,
    ⟨"/v1/chat/completions",post .openaiCompletions⟩,
    ⟨"/v1/models",get .openaiModels⟩,
    ⟨"/v1/probe",post .probe⟩,
    ⟨"/ws",get .ws⟩,
    ⟨"/api/v1/ws",get .ws⟩]

/-- What becomes of a request. -/
inductive Routed where
  /-- The CORS layer answers it. -/
  | preflight
  /-- The gate refuses it. -/
  | refused (answer : Answer)
  /-- No route has its path. -/
  | notFound
  /-- The route of its path has no such method. -/
  | methodNotAllowed
  /-- A handler gets it. -/
  | handled (handler : Handler)
  deriving DecidableEq,Repr

/-- The router behind the gate. -/
def routed (method : Method) (path : String) : Routed :=
  match ROUTES.find? fun route => route.path==path with
  | none => .notFound
  | some route =>
    match route.methods.lookup method with
    | none => .methodNotAllowed
    | some handler => .handled handler

section Router

variable {Headers Value : Type} (api : HeaderApi Headers Value) (auth : OperatorAuth)

/-- The service that `create_router` makes: the CORS layer answers every `OPTIONS`
request itself, the gate comes before the routes. -/
def service (req : Request Headers) : Routed :=
  if req.method=.options then .preflight
  else
    match requireOperator api auth req with
    | .passedOn => routed req.method req.path
    | answer => .refused answer

end Router

/-- The handlers that serve the public routes. -/
def PUBLIC_HANDLERS : List Handler := [.health,.openaiModels,.listSkills,.sseEvents]

/-- A public path is routed for reading, to a handler that only reads. -/
theorem routed_public {method : Method} {path : String} (hmethod : method=.get ∨ method=.head)
    (hpath : path∈PUBLIC_READ_PATHS) : ∃ handler∈PUBLIC_HANDLERS, routed method path=.handled handler := by
  have hall : ∀ method∈[Method.get,.head], ∀ path∈PUBLIC_READ_PATHS, ∃ handler∈PUBLIC_HANDLERS,
      routed method path=.handled handler := by decide
  exact hall method (by simpa using hmethod) path hpath

variable {Headers Value : Type} (api : HeaderApi Headers Value) (auth : OperatorAuth)

/-- A request that reaches a handler passed the gate. -/
theorem service_handled {req : Request Headers} {handler : Handler}
    (h : service api auth req=.handled handler) :
    requireOperator api auth req=.passedOn ∧ routed req.method req.path=.handled handler := by
  unfold service at h
  split at h
  · cases h
  · split at h
    · next hpassed => exact ⟨hpassed,h⟩
    · cases h

/-- A request that reaches a handler of its own presented the token, or read a public path
and reached one of the public handlers. -/
theorem handled_authorised {req : Request Headers} {handler : Handler}
    (h : service api auth req=.handled handler) :
    auth.verify (presentedToken api req.headers)=true ∨
      PublicRead req ∧ handler∈PUBLIC_HANDLERS := by
  obtain ⟨hpassed,hrouted⟩ := service_handled api auth h
  rcases (passedOn_iff api auth req).mp hpassed with hpublic|hverified
  · obtain ⟨handler',hmem,hrouted'⟩ := routed_public hpublic.1 hpublic.2
    rw [hrouted] at hrouted'
    cases hrouted'
    exact .inr ⟨hpublic,hmem⟩
  · exact .inl hverified

/-- What the gate answers to a request that it does not pass on. -/
def closed : Answer :=
  if auth.isConfigured then .unauthorized "Bearer" "operator token required"
  else .serviceUnavailable "operator token not configured; protected routes are disabled"

end AegisRuntime.GatewayRoutes
