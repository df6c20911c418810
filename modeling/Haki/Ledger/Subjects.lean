import Haki.Consolidator.Job
import Haki.Context.Retrieval
import Haki.Data.Rename
import Haki.Ledger.Forget

/-!
# Subjects

Identity resolution and subject merges (`app.ledger.subjects`), on all the
tables that carry a subject: the ledger, the episode chunks, the subject
aliases and the feedback.  The requests that reach those tables are here as
well, with what they do to them: captures that name an alias, consolidations
that write episode chunks, and the erasure of a subject.

The index columns of a chunk stay as `write_episode_chunks` sets them.
-/

namespace Haki

open Data Control

/-! ## Rows -/

/-- An alias is unique in its project (`uq_subject_aliases_identity`). -/
instance : Keyed SubjectAlias (String × String × String) :=
  ⟨fun a ↦ (a.projectId, a.aliasKind, a.aliasValue)⟩

@[simp] theorem key_subjectAlias (a : SubjectAlias) :
    key a = (a.projectId, a.aliasKind, a.aliasValue) := rfl

instance : Scoped EpisodeChunk :=
  ⟨EpisodeChunk.scope, fun s c ↦ { c with scope := s }, fun _ _ ↦ rfl, fun _ ↦ rfl⟩

/-- The row with its subject rewritten. -/
def rescope {α : Type} [Scoped α] (g : Scope → Scope) (a : α) : α :=
  Scoped.withScope (g (Scoped.scope a)) a

/-- A quality observation on a trace or a fact. -/
structure Feedback where
  projectId : String
  traceId : Option TraceId
  factId : Option FactId
  rating : Rating
deriving DecidableEq

/-- `SubjectMergeReceipt.counters`. -/
structure MergeCounters where
  eventsMoved : Nat
  factsMoved : Nat
  conflictSetsMoved : Nat
  tracesMoved : Nat
  aliasesRepointed : Nat

/-- `SubjectMergeReceipt.moved`: the primary keys of the moved rows. -/
structure MovedRows where
  events : List EventId
  facts : List FactId
  conflictSets : List ConflictId
  traces : List TraceId
  aliasesRepointed : List (String × String × String)

/-- The receipt of one merge. -/
structure SubjectMergeReceipt where
  projectId : String
  sourceSubjectId : String
  targetSubjectId : String
  counters : MergeCounters
  moved : MovedRows

/-- The tables that carry a subject, and the journal of the merges. -/
structure Memory where
  ledger : Db
  episodeChunks : Table EpisodeChunk
  subjectAliases : Table SubjectAlias
  feedback : List Feedback
  mergeReceipts : List SubjectMergeReceipt

namespace Memory

/-- A freshly migrated database. -/
def empty : Memory := ⟨.empty, .empty, .empty, [], []⟩

/-- What the assembler reads. -/
def store (m : Memory) : Store := ⟨m.ledger, m.episodeChunks, m.subjectAliases.rows⟩

end Memory

/-- What a request on subjects fails with. -/
inductive SubjectError where
  | missingScope
  | aliasConflict
  | aliasSelfRegistrationTooLong
  | invalidMerge
  | ledger (error : LedgerError)
deriving DecidableEq, Repr

/-! ## Aliases -/

/-- The deterministic id an alias registers itself under. -/
def selfRegistration (aliasKind aliasValue : String) : String := aliasKind ++ ":" ++ aliasValue

/-- `resolve_alias`: the row, whether it is new, and the table. -/
def resolveAlias (aliases : Table SubjectAlias) (projectId aliasKind aliasValue : String)
    (canonicalSubjectId : Option String) (register : Bool) :
    Except SubjectError (Option SubjectAlias × Bool × Table SubjectAlias) :=
  match aliases.get? (projectId, aliasKind, aliasValue) with
  | some row =>
    if ∃ canonical ∈ canonicalSubjectId, canonical ≠ row.canonicalSubjectId then
      .error .aliasConflict
    else .ok (some row, false, aliases)
  | none =>
    if register then
      let canonical := (canonicalSubjectId.filter (· ≠ "")).getD
        (selfRegistration aliasKind aliasValue)
      if canonicalSubjectId = none ∧ 128 < canonical.length then
        .error .aliasSelfRegistrationTooLong
      else
        let row := ⟨projectId, aliasKind, aliasValue, canonical⟩
        .ok (some row, true, aliases.insert row)
    else .ok (none, false, aliases)

/-! ## Capture and consolidation -/

/-- The subject a captured event is stored under, given by id or by an alias, and the aliases
after it was resolved. -/
def captureSubject (aliases : Table SubjectAlias) (scope : Scope) :
    Option (String × String) → Except SubjectError (String × Table SubjectAlias)
  | some (kind, value) => do
    let (row, _, aliases) ← resolveAlias aliases scope.projectId kind value none true
    pure ((row.map SubjectAlias.canonicalSubjectId).getD scope.subjectId, aliases)
  | none => .ok (scope.subjectId, aliases)

/-- `POST /v1/capture` of one new event. -/
def Memory.capture (m : Memory) (event : Event) (subjectAlias : Option (String × String)) :
    Except SubjectError Memory := do
  let (subjectId, aliases) ← captureSubject m.subjectAliases event.scope subjectAlias
  if subjectId = "" then .error .missingScope
  else
    let event := { event with scope.subjectId := subjectId }
    pure { m with
      ledger := { m.ledger with events := m.ledger.events.insert event }
      subjectAliases := aliases }

/-- The chunks of an event. -/
def eventChunks (env : Env) (event : Event) : List EpisodeChunk :=
  (env.chunkPayload event.kind event.payload).zipIdx.map fun (text, ordinal) ↦
    { id := ⟨event.id, ordinal⟩
      scope := event.scope
      occurredAt := event.occurredAt
      originTrust := event.originTrust
      text := text
      indexText := some text
      embedding := some (env.embed text) }

/-- `_write_episode_chunks`: an event that has chunks is skipped. -/
def writeEpisodeChunks (env : Env) (chunks : Table EpisodeChunk) (events : List Event) :
    Table EpisodeChunk :=
  ((events.filter fun e ↦ ∀ c ∈ chunks, c.id.event ≠ e.id).flatMap (eventChunks env)).foldl
    Table.insert chunks

/-- One consolidate job. -/
def Memory.consolidate (env : Env) (m : Memory) (extract : Extractor) (eventIds : List EventId)
    (only : Option (List EventId)) : Except SubjectError Memory := do
  let (ledger, _) ← (processJob env extract m.ledger eventIds only).mapError .ledger
  pure { m with
    ledger := ledger
    episodeChunks :=
      writeEpisodeChunks env m.episodeChunks (jobEvents m.ledger eventIds only) }

/-! ## Feedback -/

/-- What an observation is about. -/
inductive FeedbackTarget where
  | trace (id : TraceId)
  | fact (id : FactId)
deriving DecidableEq, Repr

/-- The stored observation. -/
def Feedback.of (projectId : String) (rating : Rating) : FeedbackTarget → Feedback
  | .trace id => ⟨projectId, some id, none, rating⟩
  | .fact id => ⟨projectId, none, some id, rating⟩

/-- What an observation does to the ledger. -/
def FeedbackTarget.observe (now : Timestamp) (db : Db) (projectId : String) (rating : Rating) :
    FeedbackTarget → Except LedgerError Db
  | .trace _ => .ok db
  | .fact id => submitFeedback now db projectId id rating

/-- `submit_feedback`. -/
def Memory.submitFeedback (now : Timestamp) (m : Memory) (projectId : String)
    (target : FeedbackTarget) (rating : Rating) : Except SubjectError Memory := do
  let ledger ← (target.observe now m.ledger projectId rating).mapError .ledger
  pure { m with ledger := ledger, feedback := m.feedback ++ [.of projectId rating target] }

/-! ## Merges -/

/-- The subject of a row after a merge. -/
def Scope.merge (projectId source target : String) (scope : Scope) : Scope :=
  rename ⟨projectId, source⟩ ⟨projectId, target⟩ scope

/-- The alias after a merge. -/
def SubjectAlias.repoint (projectId source target : String) (a : SubjectAlias) : SubjectAlias :=
  if a.projectId = projectId ∧ a.canonicalSubjectId = source then
    { a with canonicalSubjectId := target }
  else a

@[simp] theorem key_repoint (projectId source target : String) (a : SubjectAlias) :
    key (a.repoint projectId source target) = key a := by
  rw [SubjectAlias.repoint]
  split <;> rfl

/-- The updates of a merge on the ledger; predicate aliases are not among them. -/
def Db.rescoped (g : Scope → Scope) (db : Db) : Db :=
  { db with
    events := db.events.modify (rescope g)
    facts := db.facts.modify (rescope g)
    conflictSets := db.conflictSets.modify (rescope g)
    contextTraces := db.contextTraces.map (rescope g) }

/-- `TOMBSTONE_KIND`. -/
def tombstoneKind : String := "subject"

namespace Memory

/-- The rows a merge moves. -/
def movedRows (m : Memory) (projectId source : String) : MovedRows where
  events := (m.ledger.events.rows.filter fun e ↦ e.scope = ⟨projectId, source⟩).map Event.id
  facts := (m.ledger.facts.rows.filter fun f ↦ f.scope = ⟨projectId, source⟩).map Fact.id
  conflictSets :=
    (m.ledger.conflictSets.rows.filter fun s ↦ s.scope = ⟨projectId, source⟩).map ConflictSet.id
  traces :=
    (m.ledger.contextTraces.filter fun t ↦ t.scope = ⟨projectId, source⟩).map ContextTrace.id
  aliasesRepointed := (m.subjectAliases.rows.filter fun a ↦
    a.projectId = projectId ∧ a.canonicalSubjectId = source).map key

/-- The receipt of a merge. -/
def receipt (m : Memory) (projectId source target : String) : SubjectMergeReceipt where
  projectId := projectId
  sourceSubjectId := source
  targetSubjectId := target
  counters :=
    let moved := m.movedRows projectId source
    { eventsMoved := moved.events.length
      factsMoved := moved.facts.length
      conflictSetsMoved := moved.conflictSets.length
      tracesMoved := moved.traces.length
      aliasesRepointed := moved.aliasesRepointed.length }
  moved := m.movedRows projectId source

/-- `merge_subjects`. -/
def mergeSubjects (m : Memory) (projectId source target : String) :
    Except SubjectError (Memory × SubjectMergeReceipt) :=
  if source = "" ∨ target = "" ∨ source = target then .error .invalidMerge
  else do
    let g := Scope.merge projectId source target
    let ledger ← (flush (m.ledger.rescoped g)).mapError .ledger
    let receipt := m.receipt projectId source target
    -- The insert of the tombstone does nothing when the alias exists.
    pure ({ m with
      ledger := ledger
      episodeChunks := m.episodeChunks.modify (rescope g)
      subjectAliases :=
        (m.subjectAliases.modify (SubjectAlias.repoint projectId source target)).insert
          ⟨projectId, tombstoneKind, source, target⟩
      mergeReceipts := m.mergeReceipts ++ [receipt] }, receipt)

end Memory

/-! ## Erasure -/

namespace Memory

/-- The observation is on a fact of the scope. -/
def OnFactOf (m : Memory) (scope : Scope) (row : Feedback) : Prop :=
  ∃ id ∈ row.factId, ∃ f ∈ m.ledger.facts, f.id = id ∧ f.scope = scope

instance (m : Memory) (scope : Scope) (row : Feedback) : Decidable (m.OnFactOf scope row) :=
  inferInstanceAs (Decidable (∃ id ∈ row.factId, ∃ f ∈ m.ledger.facts, f.id = id ∧ f.scope = scope))

/-- `_forget_subject`, mode `delete`. -/
def deleteSubject (m : Memory) (scope : Scope) : Memory :=
  { ledger := Haki.deleteSubject m.ledger scope
    -- `ON DELETE CASCADE` of the events.
    episodeChunks := m.episodeChunks.filter fun c ↦
      ¬ ∃ e ∈ m.ledger.events, e.id = c.id.event ∧ e.scope = scope
    subjectAliases := m.subjectAliases.filter fun a ↦
      ¬ (a.projectId = scope.projectId ∧ a.canonicalSubjectId = scope.subjectId)
    -- `ON DELETE SET NULL` of the facts, for what another project observed.
    feedback := (m.feedback.filter fun row ↦
        ¬ (row.projectId = scope.projectId ∧ m.OnFactOf scope row)).map fun row ↦
      if m.OnFactOf scope row then { row with factId := none } else row
    mergeReceipts := m.mergeReceipts }

/-- `_forget_subject`. -/
def forgetSubject (now : Timestamp) (m : Memory) (scope : Scope) :
    ForgetMode → Except SubjectError Memory
  | .disable => do
    let ledger ← (disableSubject now m.ledger scope).mapError .ledger
    pure { m with ledger := ledger }
  | .delete => .ok (m.deleteSubject scope)

end Memory

end Haki
