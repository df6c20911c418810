import Haki.Api.Context
import Haki.Api.Keys
import Haki.Api.Reads
import Haki.Ledger.Drawn
import Haki.Sdk.Client

/-!
# The routes

What the routes and the worker read and write: the memory of the subjects, the
columns `write_events` compares, the accounts of the organizations and the queue
of consolidate jobs.  `RouteCall.answer` is a route, given the project it is
about; `Service.poll` is a run of the whole queue.

The ids of new events are drawn by the caller, and a limit that the provider of
the extractor sets is never hit: it would end a run of the queue for every job
that is left in it.
-/

namespace Haki

open Data Control

/-! ## State -/

/-- A consolidate job that is waiting. -/
structure ConsolidateJob where
  projectId : String
  eventIds : List EventId
deriving DecidableEq, Repr

/-- What the routes read and write.  The rows are as they were inserted: a merge rewrites the subject
of an event, which `write_events` does not compare. -/
structure Service where
  memory : Memory
  eventRows : List EventRow
  /-- The provisioned organizations. -/
  accounts : String → Option Account
  jobs : List ConsolidateJob

/-- What the routes do not keep in the database. -/
structure ServiceEnv where
  env : Env
  /-- `compute_event_hash`. -/
  eventHash : EventContent → String
  freeMonthlyCredits : Int

/-- A freshly migrated database, with organizations. -/
def Service.start (accounts : String → Option Account) : Service := ⟨.empty, [], accounts, []⟩

/-! ## Capture -/

/-- The events of a batch, as `write_events` is given them. -/
def eventIns (batch : List (EventId × SdkEvent)) : List (EventId × EventIn) :=
  batch.map fun sent ↦ (sent.1, sent.2.toEventIn)

/-- The events of a batch whose rows are new, as the ledger reads them. -/
def insertedEvents (new : List EventRow) (batch : List (EventId × SdkEvent)) : List Event :=
  batch.filterMap fun sent ↦
    (new.find? fun row ↦ row.id = sent.1).map fun row ↦ row.event sent.2.columns

/-- The event of an exchange. -/
def SdkEvent.inScope (event : SdkEvent) (orgId : String) (scope : Scope) : SdkEvent :=
  { event with orgId := orgId, projectId := scope.projectId, subjectId := scope.subjectId }

namespace Service

section

variable (hash : EventContent → String) (batchKey : Option String)

/-- `write_events`, under the ids drawn for the events. -/
def writeEvents (s : Service) (batch : List (EventId × SdkEvent)) :
    List (EventRow × Bool) × Service :=
  let new := newRows hash batchKey s.eventRows (eventIns batch)
  let events := (insertedEvents new batch).foldl Table.insert s.memory.ledger.events
  (writeRows hash batchKey s.eventRows (eventIns batch),
    { s with
      eventRows := s.eventRows ++ new
      memory := { s.memory with ledger := { s.memory.ledger with events := events } } })

end

/-- `create_consolidation_job`, if a batch has new events. -/
def enqueue (s : Service) (projectId : String) (results : List (EventRow × Bool)) :
    Option (List EventId) × Service :=
  let newIds := (results.filter fun r ↦ !r.2).map fun r ↦ r.1.id
  if newIds = [] then (none, s)
  else (some newIds, { s with jobs := s.jobs ++ [⟨projectId, newIds⟩] })

/-- The aliases after subjects were resolved. -/
def withAliases (s : Service) (aliases : Table SubjectAlias) : Service :=
  { s with memory := { s.memory with subjectAliases := aliases } }

/-- Every new event is charged. -/
def charge (senv : ServiceEnv) (now : Timestamp) (s : Service) (results : List (EventRow × Bool)) :
    Except CreditError Service := do
  let accounts ← results.foldlM (chargeEvent now senv.freeMonthlyCredits) s.accounts
  pure { s with accounts := accounts }

/-- The events of a batch are written, charged and enqueued. -/
def accept (senv : ServiceEnv) (s : Service) (batchKey : Option String) (now : Timestamp)
    (projectId : String) (batch : List (EventId × SdkEvent)) :
    Except CreditError (CaptureResponse × Service) := do
  let (results, written) := s.writeEvents senv.eventHash batchKey batch
  let charged ← written.charge senv now results
  let (job, s) := charged.enqueue projectId results
  pure (⟨results.map fun r ↦ (r.1.id, r.2), job⟩, s)

/-- `capture`: the subjects are resolved, then checked, before the first event is written. -/
def capture (senv : ServiceEnv) (s : Service) (batchKey : Option String) (now : Timestamp)
    (batch : List (EventId × SdkEvent)) : Except SdkError (CaptureResponse × Service) := do
  let (events, aliases) ←
    (resolveEvents s.memory.subjectAliases (batch.map Prod.snd)).mapError .subject
  match events.findIdx? fun e ↦ e.subjectId = "" with
  | some index => throw (.capture (.missingScope index))
  | none =>
    let projectId := (events.head?.map fun e ↦ e.projectId).getD ""
    ((s.withAliases aliases).accept senv batchKey now projectId
      ((batch.map Prod.fst).zip events)).mapError fun e ↦ .capture (.credits e)

/-- `capture_turn`, if there is an exchange to capture: a failure changes nothing. -/
def captureTurn (senv : ServiceEnv) (s : Service) (orgId : String) (scope : Scope) :
    Option (EventId × SdkEvent) → Service
  | none => s
  | some (id, event) =>
    if scope.subjectId = "" then s
    else
      let (results, s) := s.writeEvents senv.eventHash none [(id, event.inScope orgId scope)]
      (s.enqueue scope.projectId results).2

/-- A trace is journaled. -/
def journal (s : Service) (trace : ContextTrace) : Service :=
  { s with memory := { s.memory with ledger := { s.memory.ledger with
    contextTraces := s.memory.ledger.contextTraces ++ [trace] } } }

/-- `chat_completions`: the packet that was injected, if memory was active.  The trace is committed
before the exchange is captured. -/
def chat (senv : ServiceEnv) (reader : Reader) (s : Service) (orgId projectId : String)
    (turn : Option (String × String)) (now : Timestamp) (traceId : TraceId)
    (reply : ContextPacket → Option (EventId × SdkEvent)) : Option BuiltContext × Service :=
  match turn with
  | none => (none, s)
  | some (subjectId, userText) =>
    let request := ⟨⟨projectId, subjectId⟩, userText, 3000, none, [], []⟩
    match buildContext reader s.memory.store request with
    | .error _ => (none, s)
    | .ok built => (some built,
        (s.journal (built.trace traceId ⟨projectId, subjectId⟩ now)).captureTurn senv orgId
          ⟨projectId, subjectId⟩ (reply built.packet))

end Service

/-! ## The queue -/

/-- What is left of a job that was processed as far as some events, or all of them. -/
def ConsolidateJob.remaining (job : ConsolidateJob) :
    Option (List EventId) → List ConsolidateJob
  | none => []
  | some only =>
    let eventIds := job.eventIds.filter (· ∉ only)
    if eventIds = [] then [] else [{ job with eventIds := eventIds }]

section

variable (env : Env) (extract : Extractor) (only : Option (List EventId))
  (claimed : ConsolidateJob → Bool)

/-- One job of `_run_jobs`, if it is claimed: whether it was processed, and what is left.  A job that
fails is rolled back to its savepoint, and waits for the next run. -/
def runJob (m : Memory) (job : ConsolidateJob) : Nat × Memory × List ConsolidateJob :=
  if claimed job then
    match m.consolidate env extract job.eventIds only with
    | .ok m' => (1, m', job.remaining only)
    | .error _ => (0, m, [job])
  else (0, m, [job])

/-- `_run_jobs`: how many jobs were processed, and what is left. -/
def runJobs (m : Memory) : List ConsolidateJob → Nat × Memory × List ConsolidateJob
  | [] => (0, m, [])
  | job :: jobs =>
    let (done, m, left) := runJob env extract only claimed m job
    let (later, m, rest) := runJobs m jobs
    (done + later, m, left ++ rest)

end

namespace Service

variable (senv : ServiceEnv) (s : Service)

/-- `run_pending_consolidations`. -/
def poll (now : Timestamp) (extract : Extractor) : Nat × Service :=
  let (done, m, jobs) := runJobs (senv.env.at now) extract none (fun _ ↦ true) s.memory s.jobs
  (done, { s with memory := m, jobs := jobs })

/-- `run_pending_consolidations_for_subject`: the jobs that have an event of the subject, as far as
they do. -/
def consolidateSubject (scope : Scope) (now : Timestamp) (extract : Extractor) : Nat × Service :=
  let only := (s.memory.ledger.events.rows.filter fun e ↦ e.scope = scope).map Event.id
  let (done, m, jobs) := runJobs (senv.env.at now) extract (some only)
    (fun job ↦ ∃ id ∈ job.eventIds, id ∈ only) s.memory s.jobs
  (done, { s with memory := m, jobs := jobs })

/-- The rows of events that `forget` leaves. -/
def keptRows (projectId : String) (mode : ForgetMode) (target : ForgetTarget) : List EventRow :=
  match mode, target with
  | .delete, .subject subjectId => s.eventRows.filter fun row ↦
      ¬ ∃ e ∈ s.memory.ledger.events, e.id = row.id ∧ e.scope = ⟨projectId, subjectId⟩
  | _, _ => s.eventRows

/-- `forget`. -/
def forget (now : Timestamp) (projectId : String) (mode : ForgetMode) (target : ForgetTarget) :
    Except SubjectError (ForgetCounters × Service) := do
  let (counters, m) ← s.memory.forget now projectId mode target
  pure (counters, { s with memory := m, eventRows := s.keptRows projectId mode target })

end Service

/-! ## Projects -/

/-- `ProjectOut`. -/
structure ProjectOut where
  projectId : String
  activeFacts : Nat
  subjects : Nat
deriving DecidableEq, Repr

/-- The row of a project: its active facts, and the subjects that have facts. -/
def Db.projectOut (db : Db) (projectId : String) : ProjectOut where
  projectId := projectId
  activeFacts := db.facts.rows.countP fun f ↦ f.scope.projectId = projectId ∧ f.status = .active
  subjects := ((db.liveFacts projectId).map (·.scope.subjectId)).eraseDups.length

/-- The projects `list_projects` is about: those that keys of the organization are for. -/
def orgProjects (keys : ApiKeys) (orgId : String) : List String :=
  (((keys.filter fun key ↦ key.orgId = orgId).map ApiKey.projectId).eraseDups).insertionSort
    fun p q ↦ p ≤ q

/-! ## Routes -/

/-- What a route is about to do, with the projects it has read. -/
inductive RouteCall where
  /-- `POST /v1/capture`, with the ids drawn for the events. -/
  | capture (batchKey : Option String) (now : Timestamp) (batch : List (EventId × SdkEvent))
  /-- `POST /v1/context`. -/
  | context (reader : Reader) (call : ContextCall)
  /-- `POST /gateway/v1/chat/completions`: the subject and the last user message, if there are
  both, and the event that the exchange is captured as, which may depend on the packet. -/
  | chat (reader : Reader) (orgId projectId : String) (turn : Option (String × String))
      (now : Timestamp) (traceId : TraceId) (reply : ContextPacket → Option (EventId × SdkEvent))
  /-- `POST /v1/conflicts/{conflict_id}/resolve`. -/
  | resolveConflict (now : Timestamp) (projectId : String) (id : ConflictId) (keep : FactId)
  /-- `POST /v1/forget`. -/
  | forget (now : Timestamp) (projectId : String) (mode : ForgetMode) (target : ForgetTarget)
  /-- `POST /v1/feedback`. -/
  | feedback (now : Timestamp) (projectId : String) (rating : Rating) (target : FeedbackTarget)
  /-- `POST /v1/subjects/resolve`. -/
  | resolveSubject (projectId aliasKind aliasValue : String) (canonicalSubjectId : Option String)
  /-- `POST /v1/subjects/merge`. -/
  | mergeSubjects (projectId source target : String)
  /-- `POST /v1/consolidate/subject`. -/
  | consolidateSubject (scope : Scope) (now : Timestamp) (extract : Extractor)
  /-- A read route. -/
  | read (projectId subjectId : Option String) (read : Read)
  /-- `GET /v1/projects`. -/
  | projects (projectIds : List String)

/-- What a request is answered with. -/
inductive HttpResponse where
  | captured (response : CaptureResponse)
  | context (built : BuiltContext)
  | chat (injected : Option BuiltContext)
  | resolved (kept : FactId) (superseded : List FactId)
  | forgotten (counters : ForgetCounters)
  | observed (factStatus : Option FactStatus)
  | subject (row : Option SubjectAlias) (created : Bool)
  | merged (receipt : SubjectMergeReceipt)
  | processed (jobs : Nat)
  | read (result : ReadResult)
  | projects (projects : List ProjectOut)
  | captureFailed (error : SdkError)
  | failed (error : SubjectError)
  | contextFailed (error : ContextCallError)
  | readFailed (error : ReadError)

namespace RouteCall

/-- A route that writes the tables of the subjects, and commits when it succeeds. -/
def commit {β : Type} (s : Service) (answer : β → HttpResponse) :
    Except SubjectError (β × Memory) → HttpResponse × Service
  | .ok (b, m) => (answer b, { s with memory := m })
  | .error e => (.failed e, s)

/-- The answer of a route, and what is stored after it. -/
def answer (senv : ServiceEnv) (s : Service) : RouteCall → HttpResponse × Service
  | .capture batchKey now batch =>
    match s.capture senv batchKey now batch with
    | .ok (response, s') => (.captured response, s')
    | .error e => (.captureFailed e, s)
  | .context reader call =>
    match s.memory.context reader call with
    | .ok (built, m) => (.context built, { s with memory := m })
    | .error e => (.contextFailed e, s)
  | .chat reader orgId projectId turn now traceId reply =>
    let (injected, s') := s.chat senv reader orgId projectId turn now traceId reply
    (.chat injected, s')
  | .resolveConflict now projectId id keep =>
    commit s (.resolved keep) do
      let ledger ← (Haki.resolveConflict now s.memory.ledger projectId id keep).mapError .ledger
      pure (s.memory.ledger.supersededIds id keep, { s.memory with ledger := ledger })
  | .forget now projectId mode target =>
    match s.forget now projectId mode target with
    | .ok (counters, s') => (.forgotten counters, s')
    | .error e => (.failed e, s)
  | .feedback now projectId rating target => commit s .observed do
    let m ← s.memory.submitFeedback now projectId target rating
    pure (target.factStatus m.ledger, m)
  | .resolveSubject projectId aliasKind aliasValue canonicalSubjectId =>
    commit s (fun (row, created) ↦ .subject row created) do
      let (row, created, aliases) ←
        resolveAlias s.memory.subjectAliases projectId aliasKind aliasValue canonicalSubjectId true
      pure ((row, created), { s.memory with subjectAliases := aliases })
  | .mergeSubjects projectId source target => commit s .merged do
    let (m, receipt) ← s.memory.mergeSubjects projectId source target
    pure (receipt, m)
  | .consolidateSubject scope now extract =>
    let (done, s') := s.consolidateSubject senv scope now extract
    (.processed done, s')
  | .read projectId subjectId route =>
    match route.answer s.memory projectId subjectId with
    | .ok result => (.read result, s)
    | .error e => (.readFailed e, s)
  | .projects projectIds => (.projects (projectIds.map s.memory.ledger.projectOut), s)

end RouteCall

/-! ## Steps -/

/-- Something that is done to a service. -/
inductive ServiceStep where
  /-- A call, made for a project. -/
  | call (projectId : String) (call : RouteCall)
  /-- A run of the whole queue, by the worker or by `POST /v1/consolidate`. -/
  | poll (now : Timestamp) (extract : Extractor)

/-- What a step is answered with, and what is stored after it. -/
def ServiceStep.answer (senv : ServiceEnv) (s : Service) : ServiceStep → HttpResponse × Service
  | .call _ route => route.answer senv s
  | .poll now extract =>
    let (done, s') := s.poll senv now extract
    (.processed done, s')

end Haki
