import Haki.Api.Conflicts
import Haki.Api.DeviceAuth
import Haki.Requests

/-!
# The writing methods of the client

The methods of `HakiClient` that write and are sent again when an answer is
lost: `capture`, `forget`, `feedback`, `resolve_conflict` and `cli_device_poll`,
each with what its route does to the server and answers.

A row of `events` is a row of `write_events` together with the columns
`write_events` does not compare, and the ledger reads both (`Server.memory`).
-/

namespace Haki

open Data Control

/-! ## Events -/

/-- The columns of an event that `write_events` does not compare. -/
structure EventColumns where
  actorId : Option String
  originTrust : OriginTrust
  embedding : Option Embedding := none
  indexText : Option String := none

/-- The row as the ledger reads it. -/
def EventRow.event (row : EventRow) (columns : EventColumns) : Event where
  id := row.id
  scope := ⟨row.content.projectId, row.content.subjectId⟩
  kind := row.content.kind
  payload := row.content.payload
  occurredAt := row.content.occurredAt
  actorId := columns.actorId
  originTrust := columns.originTrust
  embedding := columns.embedding
  indexText := columns.indexText

namespace EventStore

/-- The table the ledger reads. -/
def table (store : EventStore) (columns : EventId → EventColumns) : Table Event where
  rows := store.rows.map fun row ↦ row.event (columns row.id)
  nodup := by
    rw [List.map_map]
    exact store.ids

/-- The rows satisfying `p`. -/
def filter (store : EventStore) (p : EventRow → Bool) : EventStore where
  rows := store.rows.filter p
  nextId := store.nextId
  keys := store.keys.sublist (List.filter_sublist.map _)
  ids := store.ids.sublist (List.filter_sublist.map _)
  drawn row hrow := store.drawn row (List.mem_of_mem_filter hrow)

end EventStore

/-- An event as the client sends it, its subject given by id or by an alias. -/
structure SdkEvent extends EventIn where
  subjectAlias : Option (String × String)
  columns : EventColumns

/-- The event under the subject it is stored under, and the aliases after that was resolved. -/
def SdkEvent.resolve (aliases : Table SubjectAlias) (event : SdkEvent) :
    Except SubjectError (SdkEvent × Table SubjectAlias) := do
  let (subjectId, aliases) ←
    captureSubject aliases ⟨event.projectId, event.subjectId⟩ event.subjectAlias
  pure ({ event with subjectId := subjectId }, aliases)

/-- The events of a batch under their subjects, resolved one after the other. -/
def resolveEvents (aliases : Table SubjectAlias) :
    List SdkEvent → Except SubjectError (List SdkEvent × Table SubjectAlias)
  | [] => .ok ([], aliases)
  | event :: events => do
    let (event, aliases) ← event.resolve aliases
    let (events, aliases) ← resolveEvents aliases events
    pure (event :: events, aliases)

/-! ## Forgetting -/

/-- Exactly one of `fact_id` and `subject_id`. -/
inductive ForgetTarget where
  | fact (id : FactId)
  | subject (subjectId : String)
deriving DecidableEq, Repr

/-- What a `forget` says it did. -/
structure ForgetCounters where
  factsDisabled : Nat := 0
  factsDeleted : Nat := 0
  conflictSetsDeleted : Nat := 0
  eventsDeleted : Nat := 0
  tracesDeleted : Nat := 0
  feedbackDeleted : Nat := 0
  predicateAliasesDeleted : Nat := 0
  subjectAliasesDeleted : Nat := 0
deriving DecidableEq, Repr

namespace Memory

/-- The counters of `_forget_fact`. -/
def forgetFactCounters (m : Memory) (id : FactId) (mode : ForgetMode) : ForgetCounters :=
  let n := if (m.ledger.fact? id).any (·.status = mode.target) then 0 else 1
  match mode with
  | .disable => { factsDisabled := n }
  | .delete => { factsDeleted := n }

/-- The counters of `_forget_subject`. -/
def forgetSubjectCounters (m : Memory) (scope : Scope) : ForgetMode → ForgetCounters
  | .disable =>
    { factsDisabled := m.ledger.facts.rows.countP fun f ↦
        f.scope = scope ∧ (f.status = .active ∨ f.status = .candidate) }
  | .delete =>
    { factsDeleted := m.ledger.facts.rows.countP (·.scope = scope)
      conflictSetsDeleted := m.ledger.conflictSets.rows.countP (·.scope = scope)
      eventsDeleted := m.ledger.events.rows.countP (·.scope = scope)
      tracesDeleted := m.ledger.contextTraces.countP (·.scope = scope)
      feedbackDeleted := m.feedback.countP fun row ↦
        row.projectId = scope.projectId ∧ m.OnFactOf scope row
      predicateAliasesDeleted := m.ledger.predicateAliases.rows.countP (·.scope = scope)
      subjectAliasesDeleted := m.subjectAliases.rows.countP fun a ↦
        a.projectId = scope.projectId ∧ a.canonicalSubjectId = scope.subjectId }

/-- `forget`. -/
def forget (now : Timestamp) (m : Memory) (projectId : String) (mode : ForgetMode) :
    ForgetTarget → Except SubjectError (ForgetCounters × Memory)
  | .fact id => do
    let ledger ← (forgetFact now m.ledger projectId id mode).mapError .ledger
    pure (m.forgetFactCounters id mode, { m with ledger := ledger })
  | .subject subjectId => do
    let m' ← m.forgetSubject now ⟨projectId, subjectId⟩ mode
    pure (m.forgetSubjectCounters ⟨projectId, subjectId⟩ mode, m')

end Memory

/-- The journal of what was forgotten. -/
structure ForgetReceipt where
  id : Nat
  projectId : String
  mode : ForgetMode
  target : ForgetTarget
  counters : ForgetCounters
deriving DecidableEq, Repr

/-! ## Polls -/

/-- `device_poll`, when no command of another request comes between its own. -/
def DeviceStore.devicePoll (s : DeviceStore) (deviceCode : String) : PollResponse × DeviceStore :=
  match s.devices deviceCode with
  | none => (.notFound, s)
  | some entry =>
    match entry.value.credentials with
    | some credentials => (.approved credentials, s.setDevice deviceCode none)
    | none =>
      if entry.value.expiresAt ≤ s.clock then (.expired, s.setDevice deviceCode none)
      else (.pending, s)

/-- It is the handler of a poll, taking its turns one after the other. -/
theorem DeviceStore.devicePoll_turns (normalize : String → String) (s : DeviceStore)
    (deviceCode : String) :
    s.turn normalize (.poll deviceCode) .ahead = some (s, s.poll deviceCode) ∧
      ((s.devicePoll deviceCode).2 = s ∧
          s.poll deviceCode = .done (.polled deviceCode (s.devicePoll deviceCode).1) ∨
        s.turn normalize .proceed (s.poll deviceCode) = some ((s.devicePoll deviceCode).2,
          .done (.polled deviceCode (s.devicePoll deviceCode).1))) := by
  refine ⟨rfl, ?_⟩
  cases hdevice : s.devices deviceCode with
  | none => exact .inl (by simp [poll, devicePoll, hdevice])
  | some entry =>
    cases happroved : entry.value.credentials with
    | some credentials => exact .inr (by simp [poll, devicePoll, hdevice, happroved, turn, proceed])
    | none =>
      by_cases hlate : entry.value.expiresAt ≤ s.clock
      · exact .inr (by simp [poll, devicePoll, hdevice, happroved, hlate, turn, proceed])
      · exact .inl (by simp [poll, devicePoll, hdevice, happroved, hlate])

/-! ## The server -/

/-- What the routes read and write. -/
structure Server where
  intake : CaptureState
  columns : EventId → EventColumns
  facts : Table Fact
  conflictSets : Table ConflictSet
  predicateAliases : Table PredicateAlias
  contextTraces : List ContextTrace
  episodeChunks : Table EpisodeChunk
  subjectAliases : Table SubjectAlias
  feedback : List Feedback
  mergeReceipts : List SubjectMergeReceipt
  forgetReceipts : List ForgetReceipt
  /-- The next primary key of a receipt or an observation. -/
  nextId : Nat
  devices : DeviceStore
  /-- When Redis evicts the key of a session: `SET … EX` of `device_start`, kept by `KEEPTTL`. -/
  evictedAt : String → Timestamp

namespace Server

/-- The tables that carry a subject. -/
def memory (s : Server) : Memory where
  ledger :=
    { events := s.intake.events.table s.columns
      facts := s.facts
      conflictSets := s.conflictSets
      predicateAliases := s.predicateAliases
      contextTraces := s.contextTraces }
  episodeChunks := s.episodeChunks
  subjectAliases := s.subjectAliases
  feedback := s.feedback
  mergeReceipts := s.mergeReceipts

/-- The server with other tables: an event that is not in them is gone. -/
def withMemory (s : Server) (m : Memory) : Server :=
  { s with
    intake := { s.intake with
      events := s.intake.events.filter fun row ↦ ∃ e ∈ m.ledger.events, e.id = row.id }
    facts := m.ledger.facts
    conflictSets := m.ledger.conflictSets
    predicateAliases := m.ledger.predicateAliases
    contextTraces := m.ledger.contextTraces
    episodeChunks := m.episodeChunks
    subjectAliases := m.subjectAliases
    feedback := m.feedback
    mergeReceipts := m.mergeReceipts }

/-- The devices at a time: the keys past their time to live are gone. -/
def devicesAt (s : Server) (now : Timestamp) : DeviceStore :=
  { s.devices with
    devices := fun deviceCode ↦ (s.devices.devices deviceCode).filter fun entry ↦
      entry.expires → now < s.evictedAt deviceCode
    clock := now }

end Server

/-! ## Methods -/

/-- A call of a method. -/
inductive SdkRequest where
  | capture (events : List SdkEvent) (idempotencyKey : Option String)
  | forget (projectId : String) (mode : ForgetMode) (target : ForgetTarget)
  | feedback (projectId : String) (rating : Rating) (target : FeedbackTarget)
  | resolveConflict (id : ConflictId) (projectId : String) (keep : FactId)
  | cliDevicePoll (deviceCode : String)

/-- What a successful call returns. -/
inductive SdkResponse where
  | captured (response : CaptureResponse)
  | forgotten (forgetId : Nat) (mode : ForgetMode) (target : ForgetTarget)
      (counters : ForgetCounters)
  | observed (feedbackId : Nat) (factStatus : Option FactStatus)
  | resolved (id : ConflictId) (kept : FactId) (superseded : List FactId) (resolvedAt : Timestamp)
  | polled (response : PollResponse)

/-- What a call raises. -/
inductive SdkError where
  | capture (error : CaptureError)
  | subject (error : SubjectError)
  /-- `device_code_not_found`. -/
  | deviceCodeNotFound
deriving DecidableEq, Repr

/-- `superseded_fact_ids`: a disabled member stays as it is. -/
def Db.supersededIds (db : Db) (id : ConflictId) (keep : FactId) : List FactId :=
  ((db.conflictSet? id).elim [] ConflictSet.factIds).filter fun i ↦
    i ≠ keep ∧ ¬ (db.fact? i).any (·.status = .disabled)

/-- The resulting status of the fact that was observed. -/
def FeedbackTarget.factStatus (db : Db) : FeedbackTarget → Option FactStatus
  | .trace _ => none
  | .fact id => (db.fact? id).map Fact.status

section

variable (hash : EventContent → String) (freeMonthlyCredits : Int)

/-- The columns of the events after a batch: a new row has those of the first event it could be
made from. -/
def insertedColumns (batchKey : Option String) (store : EventStore) (events : List SdkEvent)
    (columns : EventId → EventColumns) (id : EventId) : EventColumns :=
  let returned := store.returning hash batchKey (events.map SdkEvent.toEventIn)
  match returned.find? (·.id = id) with
  | none => columns id
  | some row =>
    (events.find? fun e ↦ e.eventKey hash batchKey = row.eventKey).elim (columns id)
      SdkEvent.columns

namespace Server

/-- The route of a method, at a time.  An error is rolled back. -/
def execute (now : Timestamp) (s : Server) : SdkRequest → Except SdkError (SdkResponse × Server)
  | .capture events key => do
    let (events, aliases) ← (resolveEvents s.subjectAliases events).mapError .subject
    let (response, intake) ← (Haki.capture hash now freeMonthlyCredits key
      (events.map SdkEvent.toEventIn) s.intake).mapError .capture
    pure (.captured response, { s with
      intake := intake
      columns := insertedColumns hash key s.intake.events events s.columns
      subjectAliases := aliases })
  | .forget projectId mode target => do
    let (counters, m) ← (s.memory.forget now projectId mode target).mapError .subject
    pure (.forgotten s.nextId mode target counters, { s.withMemory m with
      forgetReceipts := s.forgetReceipts ++ [⟨s.nextId, projectId, mode, target, counters⟩]
      nextId := s.nextId + 1 })
  | .feedback projectId rating target => do
    let m ← (s.memory.submitFeedback now projectId target rating).mapError .subject
    pure (.observed s.nextId (target.factStatus m.ledger),
      { s.withMemory m with nextId := s.nextId + 1 })
  | .resolveConflict id projectId keep => do
    let ledger ← (Haki.resolveConflict now s.memory.ledger projectId id keep).mapError
      fun e ↦ .subject (.ledger e)
    pure (.resolved id keep (s.memory.ledger.supersededIds id keep) now,
      s.withMemory { s.memory with ledger := ledger })
  | .cliDevicePoll deviceCode =>
    match (s.devicesAt now).devicePoll deviceCode with
    | (.notFound, _) => .error .deviceCodeNotFound
    | (response, devices) => .ok (.polled response, { s with devices := devices })

end Server

end

end Haki
