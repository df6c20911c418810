import Haki.Data.Json

/-!
# The rows of the ledger

The tables the write path reads and writes, in the words of `app.models`:
events, facts, conflict sets, predicate aliases and context traces.

* `uuid4` primary keys of facts and conflict sets are pairs of the event they
  were drawn for and an ordinal: any two draws differ, and what one event draws
  does not depend on the others.
* `(project_id, subject_id)` always travels together and is one `Scope`.
* Timestamps are microseconds on one time line.

Columns no modelled function reads (`org_id`, `confidence`, `reason`, …) are
left out.
-/

namespace Haki

open Data

/-- A point in time, in microseconds. -/
abbrev Timestamp := Int

/-- A vector of the `embedding` columns. -/
abbrev Embedding := List ℚ

/-- Primary key of an event. -/
abbrev EventId := Nat

/-- Primary key of a fact: the event it was born from, and which of its facts it is. -/
structure FactId where
  event : EventId
  ordinal : Nat
deriving DecidableEq, Repr

/-- Primary key of a conflict set, drawn like a fact's. -/
structure ConflictId where
  event : EventId
  ordinal : Nat
deriving DecidableEq, Repr

/-- Primary key of a context trace. -/
abbrev TraceId := Nat

/-- Primary key of an episode chunk: the event and the position in it. -/
structure ChunkId where
  event : EventId
  ordinal : Nat
deriving DecidableEq, Repr

/-- `(project_id, subject_id)`. -/
structure Scope where
  projectId : String
  subjectId : String
deriving DecidableEq, Repr

/-! ## Enumerations -/

/-- `FactStatus`. -/
inductive FactStatus where
  | candidate | active | superseded | disputed | disabled | deleted
deriving DecidableEq, Repr

/-- `FACT_KINDS`. -/
inductive FactKind where
  | attribute | preference | instruction
deriving DecidableEq, Repr

/-- `VOLATILITY_CLASSES`. -/
inductive Volatility where
  | stable | slow | volatile | ephemeral
deriving DecidableEq, Repr

/-- `MEMORY_FORMS`. -/
inductive MemoryForm where
  | state | event
deriving DecidableEq, Repr

/-- `ORIGIN_TRUST_LEVELS`. -/
inductive OriginTrust where
  | trusted | semiTrusted | thirdParty | untrusted
deriving DecidableEq, Repr

/-- `ORIGIN_TRUST_RANK`. -/
def OriginTrust.rank : OriginTrust → Nat
  | .untrusted => 0
  | .thirdParty => 1
  | .semiTrusted => 2
  | .trusted => 3

theorem OriginTrust.rank_injective : Function.Injective OriginTrust.rank := by
  intro a b h
  cases a <;> cases b <;> first | rfl | cases h

/-- `ConflictSet.status`. -/
inductive ConflictStatus where
  | open | resolved | reclassifiedEvent
deriving DecidableEq, Repr

/-- `ConflictSet.kind`. -/
inductive ConflictKind where
  | contradiction | quarantine
deriving DecidableEq, Repr

/-- `temporal_range`: the two ISO bounds of a described period. -/
structure TemporalRange where
  start : String
  «end» : String
deriving DecidableEq, Repr

/-! ## Rows -/

/-- A captured source event. -/
structure Event where
  id : EventId
  scope : Scope
  kind : String
  payload : Dict
  occurredAt : Timestamp
  actorId : Option String
  originTrust : OriginTrust
  /-- Derived retrieval columns, written by the consolidator only. -/
  embedding : Option Embedding := none
  indexText : Option String := none

/-- A versioned memory fact. -/
structure Fact where
  id : FactId
  scope : Scope
  predicate : String
  value : Dict
  qualifiers : Dict
  status : FactStatus
  validFrom : Option Timestamp
  validTo : Option Timestamp
  recordedFrom : Timestamp
  recordedTo : Option Timestamp
  supersedesId : Option FactId
  sourceEventIds : List EventId
  version : Nat
  reinforcementCount : Nat
  lastReinforcedAt : Option Timestamp
  factKind : FactKind
  volatility : Volatility
  memoryForm : MemoryForm
  reclassifiedAt : Option Timestamp
  originTrust : OriginTrust
  temporalRange : Option TemporalRange
  observedAt : Option Timestamp
  evidenceSpan : Option String
  sourceChunkId : Option ChunkId
  embedding : Option Embedding
  searchText : Option String

/-- A group of incompatible facts, or a single fact held for review. -/
structure ConflictSet where
  id : ConflictId
  scope : Scope
  factIds : List FactId
  status : ConflictStatus
  kind : ConflictKind
  createdAt : Timestamp
  resolvedAt : Option Timestamp

/-- A predicate synonym learned for one subject. -/
structure PredicateAlias where
  scope : Scope
  aliasPredicate : String
  canonicalPredicate : String
deriving DecidableEq

/-- One served context packet: the ids of `packet["facts"]`. -/
structure ContextTrace where
  id : TraceId
  scope : Scope
  createdAt : Timestamp
  factIds : List FactId

instance : Keyed Event EventId := ⟨Event.id⟩
instance : Keyed Fact FactId := ⟨Fact.id⟩
instance : Keyed ConflictSet ConflictId := ⟨ConflictSet.id⟩
instance : Keyed PredicateAlias (Scope × String) := ⟨fun a ↦ (a.scope, a.aliasPredicate)⟩

@[simp] theorem key_event (e : Event) : key e = e.id := rfl
@[simp] theorem key_fact (f : Fact) : key f = f.id := rfl
@[simp] theorem key_conflictSet (s : ConflictSet) : key s = s.id := rfl
@[simp] theorem key_predicateAlias (a : PredicateAlias) : key a = (a.scope, a.aliasPredicate) := rfl

/-- A row that carries a subject. -/
class Scoped (α : Type) where
  /-- `(project_id, subject_id)`. -/
  scope : α → Scope
  /-- The row with another subject. -/
  withScope : Scope → α → α
  scope_withScope : ∀ s a, scope (withScope s a) = s
  withScope_scope : ∀ a, withScope (scope a) a = a

attribute [simp] Scoped.scope_withScope Scoped.withScope_scope

instance : Scoped Event := ⟨Event.scope, fun s e ↦ { e with scope := s }, fun _ _ ↦ rfl, fun _ ↦ rfl⟩
instance : Scoped Fact := ⟨Fact.scope, fun s f ↦ { f with scope := s }, fun _ _ ↦ rfl, fun _ ↦ rfl⟩
instance : Scoped ConflictSet :=
  ⟨ConflictSet.scope, fun s c ↦ { c with scope := s }, fun _ _ ↦ rfl, fun _ ↦ rfl⟩
instance : Scoped ContextTrace :=
  ⟨ContextTrace.scope, fun s t ↦ { t with scope := s }, fun _ _ ↦ rfl, fun _ ↦ rfl⟩

namespace Fact

/-- An active value of a scalar identity: the rows the partial unique index covers. -/
def Current (f : Fact) : Prop := f.status = .active ∧ f.memoryForm = .state

instance (f : Fact) : Decidable f.Current := inferInstanceAs (Decidable (_ ∧ _))

/-- `coalesce(last_reinforced_at, valid_from, recorded_from)`. -/
def freshnessClock (f : Fact) : Timestamp :=
  (f.lastReinforcedAt.or f.validFrom).getD f.recordedFrom

end Fact

/-! ## The database -/

/-- The tables of the ledger. -/
structure Db where
  events : Table Event
  facts : Table Fact
  conflictSets : Table ConflictSet
  predicateAliases : Table PredicateAlias
  contextTraces : List ContextTrace

namespace Db

/-- A freshly migrated database. -/
def empty : Db := ⟨.empty, .empty, .empty, .empty, []⟩

/-- `session.get(Fact, id)`. -/
def fact? (db : Db) (id : FactId) : Option Fact := db.facts.get? id

/-- `session.get(ConflictSet, id)`. -/
def conflictSet? (db : Db) (id : ConflictId) : Option ConflictSet := db.conflictSets.get? id

def insertFact (db : Db) (f : Fact) : Db := { db with facts := db.facts.insert f }

def updateFact (db : Db) (id : FactId) (g : Fact → Fact) : Db :=
  { db with facts := db.facts.update id g }

def insertConflictSet (db : Db) (s : ConflictSet) : Db :=
  { db with conflictSets := db.conflictSets.insert s }

def updateConflictSet (db : Db) (id : ConflictId) (g : ConflictSet → ConflictSet) : Db :=
  { db with conflictSets := db.conflictSets.update id g }

section

variable {db : Db} {f row : Fact} {id : FactId} {g k : Fact → Fact}

theorem fact?_eq_some_iff : db.fact? id = some f ↔ f ∈ db.facts ∧ f.id = id :=
  Table.get?_eq_some_iff

theorem fact?_of_mem (h : f ∈ db.facts) : db.fact? f.id = some f :=
  fact?_eq_some_iff.mpr ⟨h, rfl⟩

theorem mem_of_fact? (h : db.fact? id = some f) : f ∈ db.facts := (fact?_eq_some_iff.mp h).1

theorem id_of_fact? (h : db.fact? id = some f) : f.id = id := (fact?_eq_some_iff.mp h).2

/-- A fact is determined by its id. -/
theorem eq_of_id_eq {f' : Fact} (hf : f ∈ db.facts) (hf' : f' ∈ db.facts) (h : f.id = f'.id) :
    f = f' :=
  Table.eq_of_key_eq hf hf' h

theorem mem_insertFact (h : db.facts.Fresh row) :
    f ∈ (db.insertFact row).facts ↔ f ∈ db.facts ∨ f = row :=
  Table.mem_insert h

theorem mem_updateFact (hg : ∀ f, (g f).id = f.id) :
    f ∈ (db.updateFact id g).facts ↔ ∃ a ∈ db.facts, (if a.id = id then g a else a) = f :=
  Table.mem_update fun a _ ↦ hg a

theorem fact?_insertFact_self (h : db.facts.Fresh row) :
    (db.insertFact row).fact? row.id = some row :=
  (Table.get?_insert h _).trans (if_pos rfl)

theorem fact?_insertFact_of_ne (h : db.facts.Fresh row) (hid : row.id ≠ id) :
    (db.insertFact row).fact? id = db.fact? id :=
  (Table.get?_insert h _).trans (if_neg hid)

theorem fact?_updateFact (hg : ∀ f, (g f).id = f.id) (i : FactId) :
    (db.updateFact id g).fact? i = if i = id then (db.fact? i).map g else db.fact? i :=
  Table.get?_update (fun a _ ↦ hg a) _ _

theorem updateFact_insertFact_self (hg : ∀ f, (g f).id = f.id) (h : db.facts.Fresh row) :
    (db.insertFact row).updateFact row.id g = db.insertFact (g row) :=
  congrArg (fun t ↦ { db with facts := t }) (Table.update_insert_self (fun a _ ↦ hg a) rfl h)

theorem updateFact_insertFact_of_ne (hg : ∀ f, (g f).id = f.id) (h : db.facts.Fresh row)
    (hid : row.id ≠ id) :
    (db.insertFact row).updateFact id g = (db.updateFact id g).insertFact row :=
  congrArg (fun t ↦ { db with facts := t }) (Table.update_insert_of_ne (fun a _ ↦ hg a) hid h)

theorem updateFact_updateFact_self (hg : ∀ f, (g f).id = f.id) (hk : ∀ f, (k f).id = f.id) :
    (db.updateFact id g).updateFact id k = db.updateFact id fun f ↦ k (g f) :=
  congrArg (fun t ↦ { db with facts := t })
    (Table.update_update_self (fun a _ ↦ hg a) (fun a _ ↦ hk a) _)

/-- An update that leaves the fact as it is changes nothing. -/
theorem updateFact_eq_self (hsame : ∀ f ∈ db.facts, f.id = id → g f = f) :
    db.updateFact id g = db := by
  refine congrArg (fun t ↦ { db with facts := t }) ?_
  refine (Table.modify_congr fun f hf ↦ ?_).trans (Table.modify_id (fun f : Fact ↦ rfl) db.facts)
  split
  · next h => exact hsame f hf h
  · rfl

theorem fresh_updateFact (hg : ∀ f, (g f).id = f.id) (h : db.facts.Fresh row) :
    (db.updateFact id g).facts.Fresh row :=
  Table.Fresh.update (fun a _ ↦ hg a) h

end

/-- The fact ids the database mentions. -/
def factIds (db : Db) : List FactId :=
  db.facts.rows.map Fact.id ++ db.conflictSets.rows.flatMap ConflictSet.factIds ++
    db.contextTraces.flatMap ContextTrace.factIds

/-- A new primary key for a fact born from event `e`. -/
def freshFactId (db : Db) (e : EventId) : FactId :=
  ⟨e, (db.factIds.filter fun id ↦ id.event = e).foldr (fun id n ↦ max (id.ordinal + 1) n) 0⟩

/-- A new primary key for a conflict set opened while event `e` is applied. -/
def freshConflictId (db : Db) (e : EventId) : ConflictId :=
  ⟨e, ((db.conflictSets.rows.map ConflictSet.id).filter fun id ↦ id.event = e).foldr
    (fun id n ↦ max (id.ordinal + 1) n) 0⟩

end Db

end Haki
