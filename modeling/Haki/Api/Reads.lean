import Haki.Api.Graph
import Haki.Ledger.Subjects

/-!
# Read routes

The routes that list what is stored of a project or a subject: the timeline,
the facts, the traces, the open conflicts, one trace, the graph and the subjects
(`timeline`, `list_facts`, `list_traces`, `list_conflicts`, `inspect`, `graph`,
`list_subjects`).  None of them writes.
-/

namespace Haki

open Data

/-- A read route, with what it reads beside the scope. -/
inductive Read where
  | timeline
  | facts (status : Option FactStatus)
  | traces
  | conflicts (now : Timestamp)
  /-- The id of the trace, as it stands in the path and decoded. -/
  | inspect (text : String) (id : TraceId)
  | graph (printer : GraphPrinter)
  | subjects

/-- What a read route fails with. -/
inductive ReadError where
  | missingScope (field : String)
  | traceNotFound (id : TraceId)
deriving DecidableEq, Repr

/-- `SubjectOut`. -/
structure SubjectOut where
  subjectId : String
  facts : Nat
  recalls : Nat
  lastSeen : Timestamp
deriving DecidableEq, Repr

/-- The rows an answer is made from. -/
inductive ReadResult where
  | timeline (events : List Event)
  | facts (facts : List Fact)
  | traces (traces : List ContextTrace)
  | conflicts (conflicts : List ConflictSet) (openCount : Nat)
      (oldestOpen : Option Timestamp)
  | inspect (trace : ContextTrace)
  | graph (graph : Graph)
  | subjects (subjects : List SubjectOut)

/-- `FACTS_LIMIT`. -/
def factsLimit : Nat := 200

/-- `TRACES_LIMIT`. -/
def tracesLimit : Nat := 50

namespace Db

variable (db : Db)

/-- `list_timeline`: the events of a subject in business time, then as they were recorded. -/
def listTimeline (scope : Scope) : List Event :=
  (db.events.rows.filter fun e ↦ e.scope = scope).insertionSort
    fun e e' ↦ e.occurredAt ≤ e'.occurredAt

/-- `list_facts`: the latest facts of a subject, of one status or of all. -/
def listFacts (scope : Scope) (status : Option FactStatus) : List Fact :=
  ((db.facts.rows.filter fun f ↦ f.scope = scope ∧ ∀ s ∈ status, f.status = s).insertionSort
    fun f g ↦ g.recordedFrom ≤ f.recordedFrom).take factsLimit

/-- Whether a row is of a project, and of a subject if one is given. -/
def InScope (projectId : String) (subjectId : Option String) (scope : Scope) : Prop :=
  scope.projectId = projectId ∧ ∀ s ∈ subjectId, s = "" ∨ scope.subjectId = s

instance (projectId : String) (subjectId : Option String) (scope : Scope) :
    Decidable (InScope projectId subjectId scope) :=
  inferInstanceAs (Decidable (_ ∧ _))

/-- `list_traces`: the latest traces. -/
def listTraces (projectId : String) (subjectId : Option String) : List ContextTrace :=
  ((db.contextTraces.filter fun t ↦ InScope projectId subjectId t.scope).insertionSort
    fun t u ↦ u.createdAt ≤ t.createdAt).take tracesLimit

/-- `list_conflicts`: the open sets, oldest first. -/
def listConflicts (projectId : String) (subjectId : Option String) : List ConflictSet :=
  (db.conflictSets.rows.filter fun s ↦
      s.status = .open ∧ InScope projectId subjectId s.scope).insertionSort
    fun s s' ↦ s.createdAt ≤ s'.createdAt

/-- `get_trace`: a trace of another scope is not found.  No id is drawn twice, so the key and the
scope are looked for together. -/
def getTrace (id : TraceId) (scope : Scope) : Except ReadError ContextTrace :=
  match db.contextTraces.find? fun t ↦ t.id = id ∧ t.scope = scope with
  | some trace => .ok trace
  | none => .error (.traceNotFound id)

/-- The facts of a project that are not deleted. -/
def liveFacts (projectId : String) : List Fact :=
  db.facts.rows.filter fun f ↦ f.scope.projectId = projectId ∧ f.status ≠ .deleted

/-- The row of a subject: its facts, its recalls and when either was last. -/
def subjectOut (projectId subjectId : String) : SubjectOut :=
  let facts := (db.liveFacts projectId).filter (·.scope.subjectId = subjectId)
  let traces := db.contextTraces.filter (·.scope = ⟨projectId, subjectId⟩)
  ⟨subjectId, facts.length, traces.length,
    (facts.map Fact.recordedFrom ++ traces.map ContextTrace.createdAt).max?.getD 0⟩

/-- `list_subjects`: the subjects that have facts, the last seen first. -/
def listSubjects (projectId : String) : List SubjectOut :=
  ((((db.liveFacts projectId).map (·.scope.subjectId)).eraseDups).map
    (db.subjectOut projectId)).insertionSort fun s s' ↦ s'.lastSeen ≤ s.lastSeen

end Db

/-- A query parameter a route insists on. -/
def requireScope (field : String) (value : Option String) : Except ReadError String :=
  match value.filter (· ≠ "") with
  | some value => .ok value
  | none => .error (.missingScope field)

/-- What a read route answers, given the two parameters of its scope. -/
def Read.answer (m : Memory) (projectId subjectId : Option String) :
    Read → Except ReadError ReadResult
  | .timeline => do
    let subjectId ← requireScope "subject_id" subjectId
    let projectId ← requireScope "project_id" projectId
    pure (.timeline (m.ledger.listTimeline ⟨projectId, subjectId⟩))
  | .facts status => do
    let projectId ← requireScope "project_id" projectId
    let subjectId ← requireScope "subject_id" subjectId
    pure (.facts (m.ledger.listFacts ⟨projectId, subjectId⟩ status))
  | .traces => do
    let projectId ← requireScope "project_id" projectId
    pure (.traces (m.ledger.listTraces projectId subjectId))
  | .conflicts now => do
    let projectId ← requireScope "project_id" projectId
    let conflicts := m.ledger.listConflicts projectId subjectId
    pure (.conflicts conflicts conflicts.length
      (conflicts.head?.map fun oldest ↦ now - oldest.createdAt))
  | .inspect _ id => do
    let projectId ← requireScope "project_id" projectId
    let subjectId ← requireScope "subject_id" subjectId
    let trace ← m.ledger.getTrace id ⟨projectId, subjectId⟩
    pure (.inspect trace)
  | .graph printer => do
    let projectId ← requireScope "project_id" projectId
    let subjectId ← requireScope "subject_id" subjectId
    pure (.graph (m.ledger.buildSubjectGraph printer ⟨projectId, subjectId⟩))
  | .subjects => do
    let projectId ← requireScope "project_id" projectId
    pure (.subjects (m.ledger.listSubjects projectId))

end Haki
