import Haki.Env
import Haki.Control.Fold

/-!
# The ledger core: inserting facts and moving their status

`create_fact` and `transition_fact_status` of `app.ledger.core`, over the
partial unique index of migration 0018.  A write that would leave two active
state facts with one identity is refused when it is flushed; only a status
change can do that, so the index is checked there.
-/

namespace Haki

open Data Control

/-! ## Identity -/

/-- `_PROVENANCE_QUALIFIERS`: they say where a fact came from, not what it is. -/
def provenanceQualifiers : List String := ["attributed_to"]

/-- `_identity_qualifiers`. -/
def identityQualifiers (qualifiers : Dict) : Dict :=
  qualifiers.filter fun e ↦ e.1 ∉ provenanceQualifiers

/-- `_identity_qualifiers_match`: equal as canonical text. -/
def identityQualifiersMatch (fact : Fact) (qualifiers : Dict) : Bool :=
  canonical (identityQualifiers fact.qualifiers) = canonical (identityQualifiers qualifiers)

/-- `_identity_qualifiers_sql`, and the indexed expression: equal as `jsonb`. -/
def identityQualifiersSql (fact : Fact) (qualifiers : Dict) : Bool :=
  (identityQualifiers fact.qualifiers).toJsonb = (identityQualifiers qualifiers).toJsonb

/-- The fact has the columns of the unique index `uq_facts_active_subject_predicate`. -/
def Fact.HasKey (f : Fact) (scope : Scope) (predicate : String) (qualifiers : Dict) : Prop :=
  f.scope = scope ∧ f.predicate = predicate ∧ identityQualifiersSql f qualifiers

instance (f : Fact) (scope : Scope) (predicate : String) (qualifiers : Dict) :
    Decidable (f.HasKey scope predicate qualifiers) := inferInstanceAs (Decidable (_ ∧ _ ∧ _))

/-- Two facts have the same columns of the unique index. -/
def Fact.SameSlot (f g : Fact) : Prop := f.HasKey g.scope g.predicate g.qualifiers

instance (f g : Fact) : Decidable (f.SameSlot g) := inferInstanceAs (Decidable (f.HasKey _ _ _))

theorem Fact.SameSlot.symm {f g : Fact} (h : f.SameSlot g) : g.SameSlot f := by
  obtain ⟨hs, hp, hq⟩ := h
  exact ⟨hs.symm, hp.symm, by simpa [identityQualifiersSql, eq_comm] using hq⟩

/-- No two active state facts share their slot: what the partial unique index enforces. -/
def Db.UniqueActive (db : Db) : Prop :=
  ∀ f ∈ db.facts.rows, f.Current → ∀ g ∈ db.facts.rows, g.Current → f.SameSlot g → f.id = g.id

instance (db : Db) : Decidable db.UniqueActive :=
  inferInstanceAs (Decidable (∀ f ∈ db.facts.rows, f.Current → ∀ g ∈ db.facts.rows, g.Current →
    f.SameSlot g → f.id = g.id))

/-- Flush a status change. -/
def flush (db : Db) : Except LedgerError Db :=
  if db.UniqueActive then .ok db else .error .uniqueViolation

theorem flush_eq_ok {db db' : Db} : flush db = .ok db' ↔ db = db' ∧ db.UniqueActive := by
  rw [flush]
  split
  · next h => simp [h]
  · next h => simp [h]

theorem flush_of_unique {db : Db} (h : db.UniqueActive) : flush db = .ok db := if_pos h

/-! ## Facts -/

/-- `get_fact`. -/
def getFact (db : Db) (id : FactId) : Except LedgerError Fact :=
  match db.fact? id with
  | some fact => .ok fact
  | none => .error .factNotFound

theorem getFact_eq_ok {db : Db} {id : FactId} {f : Fact} :
    getFact db id = .ok f ↔ db.fact? id = some f := by
  rw [getFact]
  cases db.fact? id <;> simp

/-- The arguments of `create_fact`, and the two retrieval axes its callers set on the new row. -/
structure FactDraft where
  scope : Scope
  predicate : String
  value : Dict
  qualifiers : Dict
  validFrom : Option Timestamp
  sourceEventIds : List EventId
  factKind : FactKind
  volatility : Volatility
  originTrust : OriginTrust
  memoryForm : MemoryForm
  temporalRange : Option TemporalRange
  observedAt : Option Timestamp
  evidenceSpan : Option String
  sourceChunkId : Option ChunkId
  embedding : Embedding
  searchText : String

/-- The row `create_fact` inserts: a `candidate`, version 1. -/
def FactDraft.row (draft : FactDraft) (id : FactId) (now : Timestamp) : Fact :=
  { id := id
    scope := draft.scope
    predicate := draft.predicate
    value := draft.value
    qualifiers := draft.qualifiers
    status := .candidate
    validFrom := draft.validFrom
    validTo := none
    recordedFrom := now
    recordedTo := none
    supersedesId := none
    sourceEventIds := draft.sourceEventIds
    version := 1
    reinforcementCount := 0
    lastReinforcedAt := none
    factKind := draft.factKind
    volatility := draft.volatility
    memoryForm := draft.memoryForm
    reclassifiedAt := none
    originTrust := draft.originTrust
    temporalRange := draft.temporalRange
    observedAt := draft.observedAt
    evidenceSpan := draft.evidenceSpan
    sourceChunkId := draft.sourceChunkId
    embedding := some draft.embedding
    searchText := some draft.searchText }

/-- `ALLOWED_TRANSITIONS`. -/
def allowedTransitions : FactStatus → List FactStatus
  | .candidate => [.active, .superseded, .disputed, .disabled, .deleted]
  | .active => [.superseded, .disputed, .disabled, .deleted]
  | .superseded => [.disputed, .deleted, .disabled, .active]
  | .disputed => [.active, .superseded, .disabled, .deleted]
  | .disabled => [.active, .deleted, .disabled]
  | .deleted => []

/-- A fact moved to another status. -/
def Fact.moveTo (f : Fact) (target : FactStatus) (now : Timestamp) : Fact :=
  { f with
    status := target
    version := f.version + 1
    recordedTo := if target = .deleted then some now else f.recordedTo }

@[simp] theorem Fact.moveTo_id (f : Fact) (s : FactStatus) (t : Timestamp) :
    (f.moveTo s t).id = f.id := rfl

@[simp] theorem Fact.moveTo_status (f : Fact) (s : FactStatus) (t : Timestamp) :
    (f.moveTo s t).status = s := rfl

/-- `transition_fact_status`: apply a status change, enforcing the lifecycle graph. -/
def transitionFactStatus (now : Timestamp) (db : Db) (id : FactId) (target : FactStatus) :
    Except LedgerError Db := do
  let fact ← getFact db id
  if target ∈ allowedTransitions fact.status then
    flush (db.updateFact id (·.moveTo target now))
  else
    throw (.illegalTransition fact.status target)

theorem transitionFactStatus_eq {now : Timestamp} {db : Db} {id : FactId} {f : Fact}
    {target : FactStatus} (hf : db.fact? id = some f) (ht : target ∈ allowedTransitions f.status) :
    transitionFactStatus now db id target = flush (db.updateFact id (·.moveTo target now)) := by
  simp [transitionFactStatus, getFact, hf, ht]

theorem transitionFactStatus_illegal {now : Timestamp} {db : Db} {id : FactId} {f : Fact}
    {target : FactStatus} (hf : db.fact? id = some f) (ht : target ∉ allowedTransitions f.status) :
    transitionFactStatus now db id target = .error (.illegalTransition f.status target) := by
  simp [transitionFactStatus, getFact, hf, ht, throw, throwThe, MonadExceptOf.throw]

/-- What a successful status change is. -/
theorem transitionFactStatus_eq_ok {now : Timestamp} {db db' : Db} {id : FactId}
    {target : FactStatus} (h : transitionFactStatus now db id target = .ok db') :
    ∃ f, db.fact? id = some f ∧ target ∈ allowedTransitions f.status ∧
      db' = db.updateFact id (·.moveTo target now) ∧ db'.UniqueActive := by
  cases hf : db.fact? id with
  | none => simp [transitionFactStatus, getFact, hf] at h
  | some f =>
    by_cases ht : target ∈ allowedTransitions f.status
    · rw [transitionFactStatus_eq hf ht, flush_eq_ok] at h
      exact ⟨f, rfl, ht, h.1.symm, h.1 ▸ h.2⟩
    · rw [transitionFactStatus_illegal hf ht] at h
      cases h

/-! ## Fresh keys -/

private theorem lt_foldr_ordinal {α : Type} (n : α → Nat) (l : List α) {a : α} (h : a ∈ l) :
    n a < l.foldr (fun b m ↦ max (n b + 1) m) 0 := by
  induction l with
  | nil => cases h
  | cons b l ih =>
    rw [List.foldr_cons]
    rcases List.mem_cons.mp h with rfl | h
    · omega
    · have := ih h
      omega

theorem Db.freshFactId_notMem (db : Db) (e : EventId) : db.freshFactId e ∉ db.factIds := by
  intro h
  have hm : db.freshFactId e ∈ db.factIds.filter fun id ↦ id.event = e :=
    List.mem_filter.mpr ⟨h, by simp [Db.freshFactId]⟩
  exact absurd (lt_foldr_ordinal FactId.ordinal _ hm) (lt_irrefl _)

/-- No fact has the id drawn for a new one. -/
theorem Db.freshFactId_ne (db : Db) (e : EventId) {f : Fact} (hf : f ∈ db.facts) :
    f.id ≠ db.freshFactId e := by
  intro h
  refine db.freshFactId_notMem e (h ▸ ?_)
  exact List.mem_append_left _ (List.mem_append_left _ (List.mem_map_of_mem hf))

/-- No conflict set lists the id drawn for a new fact. -/
theorem Db.freshFactId_notMem_set (db : Db) (e : EventId) {s : ConflictSet}
    (hs : s ∈ db.conflictSets) : db.freshFactId e ∉ s.factIds := by
  intro h
  refine db.freshFactId_notMem e ?_
  exact List.mem_append_left _ (List.mem_append_right _ (List.mem_flatMap.mpr ⟨s, hs, h⟩))

theorem Db.freshConflictId_ne (db : Db) (e : EventId) {s : ConflictSet} (hs : s ∈ db.conflictSets) :
    s.id ≠ db.freshConflictId e := by
  intro h
  have hm : db.freshConflictId e ∈
      (db.conflictSets.rows.map ConflictSet.id).filter fun id ↦ id.event = e :=
    List.mem_filter.mpr ⟨h ▸ List.mem_map_of_mem hs, by simp [Db.freshConflictId]⟩
  exact absurd (lt_foldr_ordinal ConflictId.ordinal _ hm) (lt_irrefl _)

end Haki
