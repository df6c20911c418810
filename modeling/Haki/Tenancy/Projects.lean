import Haki.Data.Restrict
import Haki.Requests

/-!
# Projects

A project is a tenant: every row belongs to one, and `Memory.only keep` is what
the projects `keep` see of the memory.  `owner` says which project the events
of an id belong to; `Memory.Owned` collects what follows for the rows that
mention one: a fact, a conflict set, a chunk or a trace is of the project whose
events its ids were drawn for.  No column states it and no query checks it.

`Db.Confined p` relates a ledger to one that differs from it in rows of the
project `p` only.
-/

namespace Haki

open Data Control

/-- A row that belongs to a project. -/
class Tenanted (α : Type) where
  /-- `project_id`. -/
  projectId : α → String

instance : Tenanted Event := ⟨fun e ↦ e.scope.projectId⟩
instance : Tenanted Fact := ⟨fun f ↦ f.scope.projectId⟩
instance : Tenanted ConflictSet := ⟨fun s ↦ s.scope.projectId⟩
instance : Tenanted PredicateAlias := ⟨fun a ↦ a.scope.projectId⟩
instance : Tenanted ContextTrace := ⟨fun t ↦ t.scope.projectId⟩
instance : Tenanted EpisodeChunk := ⟨fun c ↦ c.scope.projectId⟩
instance : Tenanted SubjectAlias := ⟨SubjectAlias.projectId⟩
instance : Tenanted Feedback := ⟨Feedback.projectId⟩
instance : Tenanted SubjectMergeReceipt := ⟨SubjectMergeReceipt.projectId⟩

/-- The row is of one of the projects `keep`. -/
def visible {α : Type} [Tenanted α] (keep : String → Bool) (a : α) : Bool :=
  keep (Tenanted.projectId a)

/-- What the projects `keep` see of the ledger. -/
def Db.only (keep : String → Bool) (db : Db) : Db :=
  { events := db.events.filter (visible keep)
    facts := db.facts.filter (visible keep)
    conflictSets := db.conflictSets.filter (visible keep)
    predicateAliases := db.predicateAliases.filter (visible keep)
    contextTraces := db.contextTraces.filter (visible keep) }

/-- What the projects `keep` see of the memory. -/
def Memory.only (keep : String → Bool) (m : Memory) : Memory :=
  { ledger := m.ledger.only keep
    episodeChunks := m.episodeChunks.filter (visible keep)
    subjectAliases := m.subjectAliases.filter (visible keep)
    feedback := m.feedback.filter (visible keep)
    mergeReceipts := m.mergeReceipts.filter (visible keep) }

/-! ## Tables -/

section

variable {α κ : Type} [Keyed α κ] [Tenanted α] [DecidableEq κ] {keep : String → Bool} {k : κ}
  {t : Table α} {f : α → α} {a : α} {p : String}

theorem Table.visible_update (hkey : ∀ a, key (f a) = key a)
    (hproject : ∀ a, Tenanted.projectId (f a) = Tenanted.projectId a) (t : Table α) :
    (t.update k f).filter (visible keep) = (t.filter (visible keep)).update k f :=
  Table.filter_update hkey fun a _ _ ↦ congrArg keep (hproject a)

theorem Table.visible_modify (hkey : ∀ a, key (f a) = key a)
    (hproject : ∀ a, Tenanted.projectId (f a) = Tenanted.projectId a) (t : Table α) :
    (t.modify f).filter (visible keep) = (t.filter (visible keep)).modify f :=
  Table.filter_modify hkey fun a _ ↦ congrArg keep (hproject a)

theorem Table.hidden_update (hkey : ∀ a, key (f a) = key a)
    (hproject : ∀ a, Tenanted.projectId (f a) = Tenanted.projectId a) (hp : keep p = false)
    (h : ∀ a ∈ t, key a = k → Tenanted.projectId a = p) :
    (t.update k f).filter (visible keep) = t.filter (visible keep) := by
  refine Table.filter_update_of_false hkey fun a ha hk ↦ ?_
  rw [visible, visible, hproject a, h a ha hk]
  exact ⟨hp, hp⟩

end

/-! ## Ownership -/

section

variable (owner : EventId → String)

/-- The fact was drawn for an event of its project, and its sources are events of it. -/
structure Fact.Owned (f : Fact) : Prop where
  born : owner f.id.event = f.scope.projectId
  sources : ∀ e ∈ f.sourceEventIds, owner e = f.scope.projectId

/-- The set was opened for an event of its project, and so were its members. -/
structure ConflictSet.Owned (s : ConflictSet) : Prop where
  born : owner s.id.event = s.scope.projectId
  members : ∀ id ∈ s.factIds, owner id.event = s.scope.projectId

/-- Every row of the ledger is of the project that owns the events it mentions. -/
structure Db.Owned (db : Db) : Prop where
  events : ∀ e ∈ db.events, owner e.id = e.scope.projectId
  facts : ∀ f ∈ db.facts, f.Owned owner
  conflictSets : ∀ s ∈ db.conflictSets, s.Owned owner
  contextTraces : ∀ t ∈ db.contextTraces, ∀ id ∈ t.factIds, owner id.event = t.scope.projectId

/-- Every row is of the project that owns the events it mentions. -/
structure Memory.Owned (m : Memory) : Prop where
  ledger : m.ledger.Owned owner
  episodeChunks : ∀ c ∈ m.episodeChunks, owner c.id.event = c.scope.projectId
  feedback : ∀ row ∈ m.feedback, ∀ id ∈ row.factId, owner id.event = row.projectId

end

section

variable {owner : EventId → String} {db : Db} {f g : Fact} {p : String}

/-- Ownership depends on the id, the project and the sources. -/
theorem Fact.Owned.congr (h : f.Owned owner) (hid : g.id = f.id)
    (hproject : g.scope.projectId = f.scope.projectId)
    (hsources : g.sourceEventIds = f.sourceEventIds) : g.Owned owner :=
  ⟨by rw [hid, hproject]; exact h.born, by rw [hsources, hproject]; exact h.sources⟩

theorem Fact.Owned.of_content (h : f.Owned owner) (hcontent : g.content = f.content) :
    g.Owned owner :=
  h.congr (congrArg Fact.id hcontent : g.content.id = f.content.id)
    (congrArg Scope.projectId (Fact.scope_of_content hcontent))
    (congrArg Fact.sourceEventIds hcontent : g.content.sourceEventIds = f.content.sourceEventIds)

theorem ConflictSet.Owned.extend {s : ConflictSet} {id : FactId} (h : s.Owned owner)
    (hid : owner id.event = s.scope.projectId) : (s.extend id).Owned owner := by
  refine ⟨h.born, fun i hi ↦ ?_⟩
  rcases List.mem_append.mp hi with hi | hi
  · exact h.members i hi
  · exact List.mem_singleton.mp hi ▸ hid

namespace Db.Owned

theorem empty : Db.empty.Owned owner :=
  ⟨fun _ h ↦ absurd h (Table.notMem_empty _), fun _ h ↦ absurd h (Table.notMem_empty _),
    fun _ h ↦ absurd h (Table.notMem_empty _), by rintro _ ⟨⟩⟩

/-- The ledger without the aliases of predicates. -/
theorem withAliases (h : db.Owned owner) (aliases : Table PredicateAlias) :
    ({ db with predicateAliases := aliases } : Db).Owned owner :=
  ⟨h.events, h.facts, h.conflictSets, h.contextTraces⟩

/-- The row a fact's id leads to is of the project that owns it. -/
theorem projectId_of_id (h : db.Owned owner) {id : FactId} (hid : owner id.event = p)
    (hf : f ∈ db.facts) (hfid : f.id = id) : f.scope.projectId = p :=
  ((h.facts f hf).born.symm.trans (congrArg (fun id ↦ owner id.event) hfid)).trans hid

theorem updateFact (h : db.Owned owner) {id : FactId} {k : Fact → Fact} (hk : ∀ f, (k f).id = f.id)
    (hstep : ∀ f ∈ db.facts, f.id = id → (k f).Owned owner) : (db.updateFact id k).Owned owner := by
  refine ⟨h.events, fun f' hf' ↦ ?_, h.conflictSets, h.contextTraces⟩
  obtain ⟨f, hf, rfl⟩ := (Db.mem_updateFact hk).mp hf'
  split
  · next hid => exact hstep f hf hid
  · exact h.facts f hf

/-- A rewriting of other columns of one fact. -/
theorem updateFact_same (h : db.Owned owner) {id : FactId} {k : Fact → Fact}
    (hk : ∀ f, (k f).id = f.id ∧ (k f).scope = f.scope ∧ (k f).sourceEventIds = f.sourceEventIds) :
    (db.updateFact id k).Owned owner :=
  h.updateFact (fun f ↦ (hk f).1) fun f hf _ ↦
    (h.facts f hf).congr (hk f).1 (congrArg Scope.projectId (hk f).2.1) (hk f).2.2

theorem updateConflictSet (h : db.Owned owner) {id : ConflictId} {k : ConflictSet → ConflictSet}
    (hk : ∀ s, (k s).id = s.id ∧ (k s).scope = s.scope ∧ (k s).factIds = s.factIds) :
    (db.updateConflictSet id k).Owned owner := by
  refine ⟨h.events, h.facts, fun s' hs' ↦ ?_, h.contextTraces⟩
  obtain ⟨s, hs, rfl⟩ := (Table.mem_update fun s _ ↦ (hk s).1).mp hs'
  obtain ⟨hid, hscope, hmembers⟩ := hk s
  split
  · refine ⟨?_, ?_⟩
    · rw [hid, hscope]
      exact (h.conflictSets s hs).born
    · rw [hmembers, hscope]
      exact (h.conflictSets s hs).members
  · exact h.conflictSets s hs

theorem updateEvent (h : db.Owned owner) {id : EventId} {k : Event → Event}
    (hk : ∀ e, (k e).id = e.id ∧ (k e).scope = e.scope) :
    ({ db with events := db.events.update id k } : Db).Owned owner := by
  refine ⟨fun e' he' ↦ ?_, h.facts, h.conflictSets, h.contextTraces⟩
  obtain ⟨e, he, rfl⟩ := (Table.mem_update fun e _ ↦ (hk e).1).mp he'
  split
  · rw [(hk e).1, (hk e).2]
    exact h.events e he
  · exact h.events e he

end Db.Owned

end

/-! ## Confined changes -/

/-- Nothing but rows of the project `p` changed. -/
def Db.Confined (p : String) (db db' : Db) : Prop :=
  ∀ keep : String → Bool, keep p = false → db'.only keep = db.only keep

namespace Db.Confined

variable {owner : EventId → String} {p : String} {db db' db'' : Db}

theorem refl (db : Db) : db.Confined p db := fun _ _ ↦ rfl

theorem trans (h : db.Confined p db') (h' : db'.Confined p db'') : db.Confined p db'' :=
  fun keep hp ↦ (h' keep hp).trans (h keep hp)

theorem updateFact (ho : db.Owned owner) {id : FactId} {k : Fact → Fact}
    (hk : ∀ f, (k f).id = f.id ∧ (k f).scope = f.scope) (hid : owner id.event = p) :
    db.Confined p (db.updateFact id k) := by
  intro keep hp
  rw [Db.only, Db.only, Db.updateFact]
  dsimp only
  rw [Table.hidden_update (fun f ↦ (hk f).1) (fun f ↦ congrArg Scope.projectId (hk f).2) hp
    fun f hf hfid ↦ ho.projectId_of_id hid hf hfid]

theorem updateConflictSet (ho : db.Owned owner) {id : ConflictId} {k : ConflictSet → ConflictSet}
    (hk : ∀ s, (k s).id = s.id ∧ (k s).scope = s.scope) (hid : owner id.event = p) :
    db.Confined p (db.updateConflictSet id k) := by
  intro keep hp
  rw [Db.only, Db.only, Db.updateConflictSet]
  dsimp only
  rw [Table.hidden_update (fun s ↦ (hk s).1) (fun s ↦ congrArg Scope.projectId (hk s).2) hp
    fun s hs hsid ↦ (ho.conflictSets s hs).born.symm.trans
      ((congrArg (fun id ↦ owner id.event) hsid).trans hid)]

theorem updateEvent (ho : db.Owned owner) {id : EventId} {k : Event → Event}
    (hk : ∀ e, (k e).id = e.id ∧ (k e).scope = e.scope) (hid : owner id = p) :
    db.Confined p { db with events := db.events.update id k } := by
  intro keep hp
  rw [Db.only, Db.only]
  dsimp only
  rw [Table.hidden_update (fun e ↦ (hk e).1) (fun e ↦ congrArg Scope.projectId (hk e).2) hp
    fun e he heid ↦ (ho.events e he).symm.trans ((congrArg owner heid).trans hid)]

theorem learnAlias (db : Db) {scope : Scope} (hscope : scope.projectId = p)
    (predicate canonical : String) :
    db.Confined p (db.learnAlias scope predicate canonical) := by
  intro keep hp
  rw [Db.only, Db.only, Db.learnAlias]
  dsimp only
  have hnew : visible keep (⟨scope, predicate, canonical⟩ : PredicateAlias) = false :=
    (congrArg keep hscope).trans hp
  rw [Table.filter_insert_of_false hnew]

end Db.Confined

end Haki
