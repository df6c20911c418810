import Haki.Context.Assembler
import Haki.Ledger.Subjects

/-!
# Context calls

`POST /v1/context`: the subject is resolved without registering anything, the
purpose is recommended, the packet is built, and the trace of what was served
is committed with it.
-/

namespace Haki

open Data Control

/-- `subject_id` or `subject_alias`: exactly one is given. -/
inductive SubjectRef where
  | id (subjectId : String)
  | byAlias (kind value : String)

/-- `ContextRequest`, the clock of the transaction and the id drawn for the trace. -/
structure ContextCall where
  projectId : String
  subject : SubjectRef
  query : String
  purpose : Option String
  budgetTokens : Int
  asOf : Option Timestamp
  excludeIds : List (Option ItemId)
  now : Timestamp
  traceId : TraceId

/-- What a context call fails with. -/
inductive ContextCallError where
  | aliasNotFound
  | subject (error : SubjectError)
  | context (error : ContextError)
deriving DecidableEq, Repr

/-- `context_purpose_warning`. -/
def contextPurposeWarning (purpose : Option String) : Option String :=
  if ∃ p ∈ purpose, p ≠ "" then none
  else some "missing_purpose: 'purpose' is recommended on context calls (warning only in V1)"

/-- The subject a call is about.  An unknown alias is an error, not an empty packet. -/
def contextSubject (aliases : Table SubjectAlias) (projectId : String) :
    SubjectRef → Except ContextCallError String
  | .id subjectId => .ok subjectId
  | .byAlias kind value => do
    let (row, _, _) ← (resolveAlias aliases projectId kind value none false).mapError .subject
    match row with
    | some row => pure row.canonicalSubjectId
    | none => throw .aliasNotFound

/-- The arguments `build_context` is called with. -/
def ContextCall.request (call : ContextCall) (subjectId : String) : ContextRequest where
  scope := ⟨call.projectId, subjectId⟩
  query := call.query
  budgetTokens := call.budgetTokens
  asOf := call.asOf
  excludeIds := call.excludeIds
  extraWarnings := (contextPurposeWarning call.purpose).toList

/-- The trace of a packet. -/
def BuiltContext.trace (built : BuiltContext) (id : TraceId) (scope : Scope) (now : Timestamp) :
    ContextTrace where
  id := id
  scope := scope
  createdAt := now
  factIds := built.packet.facts.map (·.item.id)

/-- `context`. -/
def Memory.context (reader : Reader) (m : Memory) (call : ContextCall) :
    Except ContextCallError (BuiltContext × Memory) := do
  let subjectId ← contextSubject m.subjectAliases call.projectId call.subject
  let request := call.request subjectId
  let built ← (buildContext reader m.store request).mapError .context
  let trace := built.trace call.traceId request.scope call.now
  pure (built,
    { m with ledger := { m.ledger with contextTraces := m.ledger.contextTraces ++ [trace] } })

end Haki
