import Haki.Api.Auth
import Haki.Api.Service
import Haki.Control.Unwinding

/-!
# The server

A request reaches a route through the middleware, and the route reads the
project it acts on from the body, from the query or, at the gateway and for
`GET /v1/projects`, from the key.  `HttpRequest.serve` is both steps; polls of
the worker come in between (`ServerStep`).
-/

namespace Haki

open Data Control

/-! ## Requests -/

/-- A route, with the fields of the body that carry no project and no organization, the ids in the
path, and what is drawn or read from the clock while it runs. -/
inductive Endpoint where
  /-- `POST /v1/capture`. -/
  | capture (batchKey : Option String) (now : Timestamp) (batch : List (EventId × SdkEvent))
  /-- `POST /v1/context`. -/
  | context (reader : Reader) (call : ContextCall)
  /-- `POST /gateway/v1/chat/completions`. -/
  | chat (reader : Reader) (turn : Option (String × String)) (now : Timestamp) (traceId : TraceId)
      (reply : ContextPacket → Option (EventId × SdkEvent))
  /-- `POST /v1/conflicts/{conflict_id}/resolve`. -/
  | resolveConflict (text : String) (now : Timestamp) (id : ConflictId) (keep : FactId)
  /-- `POST /v1/forget`. -/
  | forget (now : Timestamp) (mode : ForgetMode) (target : ForgetTarget)
  /-- `POST /v1/feedback`. -/
  | feedback (now : Timestamp) (rating : Rating) (target : FeedbackTarget)
  /-- `POST /v1/subjects/resolve`. -/
  | resolveSubject (aliasKind aliasValue : String) (canonicalSubjectId : Option String)
  /-- `POST /v1/subjects/merge`. -/
  | mergeSubjects (source target : String)
  /-- `POST /v1/consolidate/subject`. -/
  | consolidateSubject (now : Timestamp) (extract : Extractor)
  /-- `POST /v1/consolidate`. -/
  | consolidate (now : Timestamp) (extract : Extractor)
  /-- `GET /v1/projects`. -/
  | projects
  /-- A read route of one project. -/
  | read (read : Read)

/-- A request to an endpoint. -/
structure HttpRequest where
  endpoint : Endpoint
  queryString : String
  headers : Headers
  /-- What `json.loads` reads in the body; `none` for an empty or malformed one. -/
  body : Option PyJson

/-- The path of a read route. -/
def Read.path : Read → String
  | .timeline => "/v1/timeline"
  | .facts _ => "/v1/facts"
  | .traces => "/v1/traces"
  | .conflicts _ => "/v1/conflicts"
  | .inspect text _ => "/v1/inspect/" ++ text
  | .graph _ => "/v1/graph"
  | .subjects => "/v1/subjects"

namespace Endpoint

/-- The path of a route. -/
def path : Endpoint → String
  | .capture _ _ _ => "/v1/capture"
  | .context _ _ => "/v1/context"
  | .chat _ _ _ _ _ => "/gateway/v1/chat/completions"
  | .resolveConflict text _ _ _ => "/v1/conflicts/" ++ text ++ "/resolve"
  | .forget _ _ _ => "/v1/forget"
  | .feedback _ _ _ => "/v1/feedback"
  | .resolveSubject _ _ _ => "/v1/subjects/resolve"
  | .mergeSubjects _ _ => "/v1/subjects/merge"
  | .consolidateSubject _ _ => "/v1/consolidate/subject"
  | .consolidate _ _ => "/v1/consolidate"
  | .projects => "/v1/projects"
  | .read route => route.path

/-- The method of a route. -/
def method : Endpoint → String
  | .read _ | .projects => "GET"
  | _ => "POST"

/-- The route runs the whole queue, whoever asks for it. -/
def isConsolidate : Endpoint → Bool
  | .consolidate _ _ => true
  | _ => false

end Endpoint

/-- The request, as it is handed to the middleware. -/
def HttpRequest.scope (request : HttpRequest) : HttpScope :=
  ⟨request.endpoint.method, request.endpoint.path, request.queryString, request.headers,
    request.body⟩

/-! ## The project of a request -/

/-- `Field(min_length=1, max_length=128)` of a text. -/
def scopeField (entries : List (String × PyJson)) (name : String) : Option String :=
  match entryGet entries name with
  | .str s => if 1 ≤ s.length ∧ s.length ≤ 128 then some s else none
  | _ => none

/-- The project of a body. -/
def bodyProject (body : Option PyJson) : Option String := do
  let entries ← body.bind Json.entries?
  scopeField entries "project_id"

/-- The events of a batch, each in the organization and the project its own object names. -/
def batchEvents : List PyJson → List (EventId × SdkEvent) → Option (List (EventId × SdkEvent))
  | [], [] => some []
  | sent :: rest, (id, event) :: batch => do
    let entries ← sent.entries?
    let orgId ← scopeField entries "org_id"
    let projectId ← scopeField entries "project_id"
    let batch ← batchEvents rest batch
    pure ((id, { event with orgId := orgId, projectId := projectId }) :: batch)
  | _, _ => none

/-- `CaptureRequest`: a batch has between one and a hundred events. -/
def captureBatch (body : Option PyJson) (batch : List (EventId × SdkEvent)) :
    Option (List (EventId × SdkEvent)) := do
  let entries ← body.bind Json.entries?
  match entryGet entries "events" with
  | .arr sent =>
    if 1 ≤ sent.length ∧ sent.length ≤ 100 then batchEvents sent batch else none
  | _ => none

/-- `OPEN_MODE_PROJECT`. -/
def openModeProject : String := "prj_gateway_dev"

/-- `OPEN_MODE_ORG`. -/
def openModeOrg : String := "org_gateway_dev"

/-- The project of a gateway call: the key's, or without a key that of a header. -/
def gatewayProject (headers : Headers) : Option ApiKey → String
  | some key => key.projectId
  | none => (headers.get "x-haki-project-id").getD openModeProject

/-- What is answered to a request. -/
inductive HttpResult where
  | refused (error : AuthError)
  /-- `invalid_payload` and `missing_scope` of a request that names no project. -/
  | invalid
  | answered (response : HttpResponse)

section

variable (unquote : String → String) (keys : ApiKeys)

/-- What a route reads of a request, or `none` when the request is not valid. -/
def HttpRequest.call (request : HttpRequest) (key : Option ApiKey) : Option RouteCall :=
  let param := queryParam unquote request.queryString
  match request.endpoint with
  | .capture batchKey now batch => (captureBatch request.body batch).map (.capture batchKey now)
  | .context reader call =>
    (bodyProject request.body).map fun p ↦ .context reader { call with projectId := p }
  | .chat reader turn now traceId reply =>
    some (.chat reader (key.elim openModeOrg ApiKey.orgId) (gatewayProject request.headers key)
      turn now traceId reply)
  | .resolveConflict _ now id keep =>
    (bodyProject request.body).map fun p ↦ .resolveConflict now p id keep
  | .forget now mode target => (bodyProject request.body).map fun p ↦ .forget now p mode target
  | .feedback now rating target =>
    (bodyProject request.body).map fun p ↦ .feedback now p rating target
  | .resolveSubject aliasKind aliasValue canonicalSubjectId =>
    (bodyProject request.body).map fun p ↦
      .resolveSubject p aliasKind aliasValue canonicalSubjectId
  | .mergeSubjects source target =>
    (bodyProject request.body).map fun p ↦ .mergeSubjects p source target
  | .consolidateSubject now extract => do
    let projectId ← (param "project_id").filter (· ≠ "")
    let subjectId ← (param "subject_id").filter (· ≠ "")
    pure (.consolidateSubject ⟨projectId, subjectId⟩ now extract)
  | .consolidate _ _ => none
  | .projects => key.map fun key ↦ .projects (orgProjects keys key.orgId)
  | .read route => some (.read (param "project_id") (param "subject_id") route)

/-- What a request that is let through does.  The route that runs the whole queue checks the admin
key itself, when one is configured. -/
def HttpRequest.step (settings : AuthSettings) (request : HttpRequest) (key : Option ApiKey) :
    Except HttpResult ServiceStep :=
  match request.endpoint, key with
  | .consolidate now extract, _ =>
    if settings.adminKey ≠ "" ∧
        !constantTimeBearerMatch (request.headers.get "authorization") settings.adminKey then
      .error (.refused (.denied ⟨"unauthorized", "POST /v1/consolidate processes every project's " ++
        "queue and requires the admin key. Use POST /v1/consolidate/subject for a single subject " ++
        "with a normal key.", some "Authorization", 401⟩))
    else .ok (.poll now extract)
  | .projects, none => .error (.refused (.denied
      ⟨"unauthorized", "missing or invalid API key", some "Authorization", 401⟩))
  | _, _ =>
    match request.call unquote keys key with
    | none => .error .invalid
    | some call => .ok (.call (key.elim "" ApiKey.projectId) call)

end

/-! ## The server -/

/-- Something the server does. -/
inductive ServerStep where
  /-- A request arrives while the keys are these. -/
  | http (keys : ApiKeys) (request : HttpRequest)
  /-- The worker polls the queue. -/
  | work (now : Timestamp) (extract : Extractor)

section

variable (hash unquote : String → String) (settings : AuthSettings) (senv : ServiceEnv)

/-- A request is authenticated, read and answered. -/
def HttpRequest.serve (keys : ApiKeys) (s : Service) (request : HttpRequest) :
    HttpResult × Service :=
  match authenticate hash unquote keys settings request.scope with
  | .error e => (.refused e, s)
  | .ok key =>
    match request.step unquote keys settings key with
    | .error result => (result, s)
    | .ok step =>
      let (response, s') := step.answer senv s
      (.answered response, s')

namespace ServerStep

/-- What a step does. -/
def serve (s : Service) : ServerStep → HttpResult × Service
  | .http keys request => request.serve hash unquote settings senv keys s
  | .work now extract =>
    let (response, s') := (ServiceStep.poll now extract).answer senv s
    (.answered response, s')

/-- Whose request it is: the project of the key of a request that is let through, other than one that
runs the whole queue. -/
def tenant : ServerStep → Option String
  | .http keys request =>
    if request.endpoint.isConsolidate then none
    else
      match authenticate hash unquote keys settings request.scope with
      | .ok (some key) => some key.projectId
      | _ => none
  | .work _ _ => none

/-- The step runs the whole queue, or is meant to. -/
def isPoll : ServerStep → Bool
  | .http _ request => request.endpoint.isConsolidate
  | .work _ _ => true

end ServerStep

/-- The server takes one step after the other. -/
def serveAll (s : Service) (steps : List ServerStep) : List (ServerStep × HttpResult) × Service :=
  answers (fun s step ↦ step.serve hash unquote settings senv s) s steps

end

end Haki
