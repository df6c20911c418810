import Haki.Consolidator.Queue

/-!
# An erasure beside consolidations

`_forget_subject` (mode `delete`) and `_process_job`, statement by statement, as
transactions that run side by side under READ COMMITTED.  A statement sees what
is committed and what its own transaction wrote.  A turn that has to wait for
another transaction is not taken before that one has ended, and a turn that
would break a foreign key is not taken at all: the job fails then.

Which candidates an extractor comes up with is left open.  A session may write
every fact and every conflict set that an applied candidate may write:
`FactWrite` and `SetWrite` say which these are.

The erasure also deletes feedback, traces and aliases; nothing here reads them.
-/

namespace Haki

open Data

/-! ## Rows -/

/-- The tables that consolidations and erasures write. -/
structure Rows where
  events : Table Event
  facts : Table Fact
  conflictSets : Table ConflictSet
  chunks : Table EpisodeChunk

namespace Rows

/-- No rows. -/
def empty : Rows := ⟨.empty, .empty, .empty, .empty⟩

/-- The rows, with those of another set of rows inserted or updated. -/
def merge (r s : Rows) : Rows where
  events := r.events.merge s.events
  facts := r.facts.merge s.facts
  conflictSets := r.conflictSets.merge s.conflictSets
  chunks := r.chunks.merge s.chunks

/-- `episode_chunks.event_id` references `events.id`. -/
def ChunksHaveEvents (r : Rows) : Prop := ∀ c ∈ r.chunks, ∃ e ∈ r.events, e.id = c.id.event

end Rows

/-- A source chunk that is deleted is set to null. -/
def Fact.unlinkChunks (keys : List EventId) (f : Fact) : Fact :=
  if ∃ c ∈ f.sourceChunkId, c.event ∈ keys then { f with sourceChunkId := none } else f

@[simp] theorem Fact.unlinkChunks_id (keys : List EventId) (f : Fact) :
    (f.unlinkChunks keys).id = f.id := by
  rw [Fact.unlinkChunks]
  split <;> rfl

@[simp] theorem Fact.unlinkChunks_scope (keys : List EventId) (f : Fact) :
    (f.unlinkChunks keys).scope = f.scope := by
  rw [Fact.unlinkChunks]
  split <;> rfl

@[simp] theorem Fact.unlinkChunks_sourceEventIds (keys : List EventId) (f : Fact) :
    (f.unlinkChunks keys).sourceEventIds = f.sourceEventIds := by
  rw [Fact.unlinkChunks]
  split <;> rfl

/-! ## The erasure -/

/-- A `DELETE` statement: it takes the rows that are committed when it begins, and waits for
their locks. -/
inductive Deletion (κ : Type) where
  | ahead
  | waiting (keys : List κ)
  | done (keys : List κ)

namespace Deletion

variable {κ : Type}

/-- The rows the statement has deleted. -/
def deleted : Deletion κ → List κ
  | .done keys => keys
  | _ => []

/-- The rows the statement takes. -/
def targets : Deletion κ → List κ
  | .ahead => []
  | .waiting keys | .done keys => keys

/-- The statement has begun. -/
def Begun : Deletion κ → Prop
  | .ahead => False
  | _ => True

instance : DecidablePred (Begun (κ := κ))
  | .ahead => isFalse id
  | .waiting _ | .done _ => isTrue trivial

end Deletion

/-- The transaction of `_forget_subject`, mode `delete`. -/
structure Erasure where
  scope : Scope
  facts : Deletion FactId
  conflictSets : Deletion ConflictId
  events : Deletion EventId
  committed : Bool

/-- The next statement of an erasure, or its end. -/
inductive ErasureTurn where
  /-- `DELETE FROM facts` begins. -/
  | deleteFacts
  | factsDeleted
  /-- `DELETE FROM conflict_sets` begins. -/
  | deleteConflictSets
  | conflictSetsDeleted
  /-- `DELETE FROM events` begins. -/
  | deleteEvents
  | eventsDeleted
  | commit

/-! ## Consolidations -/

/-- What a consolidation has read and written since it began. -/
structure Work where
  /-- The events it has read. -/
  read : List Event
  /-- Those of them it read before the erasure began to delete events. -/
  early : List Event
  /-- Those of them it read after that and before the erasure was committed. -/
  meanwhile : List Event
  /-- The rows it has inserted or updated. -/
  rows : Rows

/-- Nothing done. -/
def Work.empty : Work := ⟨[], [], [], .empty⟩

/-- How far a consolidation has come with its job. -/
inductive Stage where
  /-- Between two jobs. -/
  | between
  /-- The events are read. -/
  | read
  /-- The events are embedded. -/
  | embedded
  /-- The chunks are written; locks of subjects are still to be taken. -/
  | locking (scopes : List Scope)

/-- An open transaction of `_run_jobs`. -/
structure Consolidation where
  id : SessionId
  /-- The events of the job. -/
  events : List Event
  stage : Stage
  /-- The subject write locks it holds. -/
  locks : List Scope
  /-- The facts it has loaded for the job. -/
  seen : List Fact
  work : Work
  /-- What a failed job is rolled back to. -/
  saved : Work
  savedLocks : List Scope

/-- A transaction that has just begun. -/
def Consolidation.new (session : SessionId) : Consolidation :=
  ⟨session, [], .between, [], [], .empty, .empty, []⟩

instance : Keyed Consolidation SessionId := ⟨Consolidation.id⟩

@[simp] theorem key_consolidation (s : Consolidation) : key s = s.id := rfl

/-- What a consolidation does next. -/
inductive JobTurn where
  /-- The savepoint of a job, and its events. -/
  | read (eventIds : List EventId) (only : Option (List EventId))
  /-- Events without an embedding get one. -/
  | embed
  /-- `_write_episode_chunks`. -/
  | chunk
  /-- `acquire_subject_write_lock` on the next subject. -/
  | lock
  /-- The facts of the subject of an event are loaded. -/
  | look (event : EventId)
  /-- A fact is inserted or updated for an event. -/
  | writeFact (event : EventId) (fact : Fact)
  /-- A conflict set is inserted or updated for an event. -/
  | writeConflictSet (event : EventId) (conflict : ConflictSet)
  /-- Key merging rewrites the index of an event. -/
  | index (event : EventId) (text : String)
  /-- The job is done. -/
  | finish
  /-- The job fails and is rolled back. -/
  | fail
  | commit
  | crash

/-- `sorted` on `(project_id, subject_id)`. -/
def Scope.le (s t : Scope) : Prop :=
  s.projectId < t.projectId ∨ s.projectId = t.projectId ∧ s.subjectId ≤ t.subjectId

instance : DecidableRel Scope.le := fun s t ↦
  inferInstanceAs (Decidable (s.projectId < t.projectId ∨ _ ∧ s.subjectId ≤ t.subjectId))

/-- The facts an applied candidate of an event inserts, and how it updates others. -/
def FactWrite (event : Event) (old : Option Fact) (fact : Fact) : Prop :=
  fact.scope = event.scope ∧
    match old with
    | none => fact.sourceEventIds = [event.id] ∧ fact.id.event = event.id
    | some old => old.scope = event.scope ∧ (fact.sourceEventIds = old.sourceEventIds ∨
        fact.sourceEventIds = old.sourceEventIds ++ [event.id])

instance (event : Event) (fact : Fact) : ∀ old, Decidable (FactWrite event old fact)
  | none => inferInstanceAs (Decidable (_ ∧ _ ∧ _))
  | some _ => inferInstanceAs (Decidable (_ ∧ _ ∧ (_ ∨ _)))

/-- The conflict sets an applied candidate of an event inserts, and how it updates others: members
stay, and new ones are facts that were loaded. -/
def SetWrite (event : Event) (seen : List Fact) (old : Option ConflictSet)
    (conflict : ConflictSet) : Prop :=
  conflict.scope = event.scope ∧ ∀ id ∈ conflict.factIds,
    (∃ s ∈ old, s.scope = event.scope ∧ id ∈ s.factIds) ∨
      ∃ f ∈ seen, f.id = id ∧ f.scope = event.scope

instance (event : Event) (seen : List Fact) (old : Option ConflictSet) (conflict : ConflictSet) :
    Decidable (SetWrite event seen old conflict) :=
  inferInstanceAs (Decidable (_ ∧ ∀ id ∈ conflict.factIds,
    (∃ s ∈ old, s.scope = event.scope ∧ id ∈ s.factIds) ∨
      ∃ f ∈ seen, f.id = id ∧ f.scope = event.scope))

/-- The index columns of an event, from a text. -/
def Event.indexed (env : Env) (e : Event) (text : String) : Event :=
  { e with embedding := some (env.embed text), indexText := some text }

/-- The event of the job that is being applied: all locks are taken. -/
def Consolidation.current (s : Consolidation) (event : EventId) : Option Event :=
  match s.stage with
  | .locking [] => s.events.find? fun e ↦ e.id = event
  | _ => none

/-! ## The race -/

/-- What is committed, and the open transactions. -/
structure Race where
  rows : Rows
  erasure : Erasure
  consolidations : Table Consolidation
  /-- Every event id that was ever given. -/
  known : List EventId

/-- One step of one of the parties. -/
inductive RaceAction where
  /-- A capture commits an event. -/
  | capture (event : Event)
  /-- A transaction of `_run_jobs` begins. -/
  | open (session : SessionId)
  /-- A consolidation goes on. -/
  | go (session : SessionId) (turn : JobTurn)
  /-- The erasure goes on. -/
  | erase (turn : ErasureTurn)

namespace Race

variable (r : Race)

/-- An erasure of a subject is about to begin. -/
def start (rows : Rows) (scope : Scope) : Race :=
  ⟨rows, ⟨scope, .ahead, .ahead, .ahead, false⟩, .empty, rows.events.rows.map Event.id⟩

/-- The events the erasure has erased. -/
def erased : List EventId := if r.erasure.committed then r.erasure.events.deleted else []

/-! ### Locks -/

/-- The open erasure has deleted the row. -/
def Doomed {κ : Type} (deletion : Erasure → Deletion κ) (k : κ) : Prop :=
  r.erasure.committed = false ∧ k ∈ (deletion r.erasure).deleted

instance {κ : Type} [DecidableEq κ] (deletion : Erasure → Deletion κ) (k : κ) :
    Decidable (r.Doomed deletion k) :=
  inferInstanceAs (Decidable (_ ∧ _))

/-- Another open consolidation has written the row. -/
def Written {α κ : Type} [Keyed α κ] (session : SessionId) (table : Rows → Table α) (k : κ) : Prop :=
  ∃ t ∈ r.consolidations, t.id ≠ session ∧ ∃ a ∈ table t.work.rows, key a = k

instance {α κ : Type} [Keyed α κ] [DecidableEq κ] (session : SessionId) (table : Rows → Table α)
    (k : κ) : Decidable (r.Written session table k) :=
  inferInstanceAs (Decidable (∃ t ∈ r.consolidations, t.id ≠ session ∧
    ∃ a ∈ table t.work.rows, key a = k))

/-- The event is there, and the erasure has not deleted it. -/
def Standing (id : EventId) : Prop :=
  (∃ e ∈ r.rows.events, e.id = id) ∧ ¬ r.Doomed Erasure.events id

instance (id : EventId) : Decidable (r.Standing id) :=
  inferInstanceAs (Decidable ((∃ e ∈ r.rows.events, e.id = id) ∧ _))

/-- What a consolidation sees. -/
def view (s : Consolidation) : Rows := r.rows.merge s.work.rows

/-- The references a fact did not have before are to rows that stand. -/
def ReferencesStand (s : Consolidation) (old : Option Fact) (fact : Fact) : Prop :=
  (∀ id ∈ fact.supersedesId, old.bind Fact.supersedesId = some id ∨
    ((r.view s).facts.get? id).isSome ∧ ¬ r.Doomed Erasure.facts id) ∧
  ∀ id ∈ fact.sourceChunkId, old.bind Fact.sourceChunkId = some id ∨
    ((r.view s).chunks.get? id).isSome ∧ ¬ r.Doomed Erasure.events id.event

instance (s : Consolidation) (old : Option Fact) (fact : Fact) :
    Decidable (r.ReferencesStand s old fact) :=
  inferInstanceAs (Decidable ((∀ id ∈ fact.supersedesId, _ ∨ _ ∧ _) ∧
    ∀ id ∈ fact.sourceChunkId, _ ∨ _ ∧ _))

/-! ### The statements of a job -/

section

variable (env : Env) (s : Consolidation)

/-- The job begins with a savepoint and reads its events. -/
def read (eventIds : List EventId) (only : Option (List EventId)) : Except Stuck Consolidation :=
  match s.stage with
  | .between =>
    let events := jobEvents { Db.empty with events := (r.view s).events } eventIds only
    .ok { s with
      events := events
      stage := .read
      seen := []
      saved := s.work
      savedLocks := s.locks
      work :=
        { s.work with
          read := s.work.read ++ events
          early := if r.erasure.events.Begun then s.work.early else s.work.early ++ events
          meanwhile :=
            if r.erasure.events.Begun ∧ r.erasure.committed = false then
              s.work.meanwhile ++ events
            else s.work.meanwhile } }
  | _ => .error .stuck

/-- `UPDATE events`: the up-front pass over the events without an embedding. -/
def embed : Except Stuck Consolidation :=
  match s.stage with
  | .read =>
    let pending := s.events.filter fun e ↦ e.embedding.isNone
    if ∀ e ∈ pending, r.Standing e.id ∧ ¬ r.Written s.id Rows.events e.id then
      .ok { s with
        stage := .embedded
        work.rows.events := (pending.map fun e ↦ e.indexed env (episodeText e.kind e.payload)).foldl
          Table.upsert s.work.rows.events }
    else .error .stuck
  | _ => .error .stuck

/-- `INSERT INTO episode_chunks`; an event that has chunks is skipped. -/
def chunk : Except Stuck Consolidation :=
  match s.stage with
  | .embedded =>
    let chunks := (s.events.filter fun e ↦ ∀ c ∈ (r.view s).chunks, c.id.event ≠ e.id).flatMap
      (eventChunks env)
    if ∀ c ∈ chunks, r.Standing c.id.event ∧ ¬ r.Written s.id Rows.chunks c.id then
      .ok { s with
        stage := .locking ((s.events.map Event.scope).dedup.insertionSort Scope.le)
        work.rows.chunks := chunks.foldl Table.insert s.work.rows.chunks }
    else .error .stuck
  | _ => .error .stuck

/-- `acquire_subject_write_lock`. -/
def lock : Except Stuck Consolidation :=
  match s.stage with
  | .locking (scope :: scopes) =>
    if ∀ t ∈ r.consolidations, t.id ≠ s.id → scope ∉ t.locks then
      .ok { s with stage := .locking scopes, locks := s.locks ++ [scope] }
    else .error .stuck
  | _ => .error .stuck

/-- `SELECT` on the facts of a subject. -/
def look (event : EventId) : Except Stuck Consolidation :=
  match s.current event with
  | some e =>
    .ok { s with seen := s.seen ++ (r.view s).facts.rows.filter fun f ↦ f.scope = e.scope }
  | none => .error .stuck

/-- `INSERT INTO facts` or `UPDATE facts`. -/
def writeFact (event : EventId) (fact : Fact) : Except Stuck Consolidation :=
  match s.current event with
  | some e =>
    let old := (r.view s).facts.get? fact.id
    if FactWrite e old fact ∧ r.ReferencesStand s old fact ∧
        ¬ r.Doomed Erasure.facts fact.id ∧ ¬ r.Written s.id Rows.facts fact.id then
      .ok { s with
        seen := s.seen ++ [fact]
        work.rows.facts := s.work.rows.facts.upsert fact }
    else .error .stuck
  | none => .error .stuck

/-- `INSERT INTO conflict_sets` or `UPDATE conflict_sets`. -/
def writeConflictSet (event : EventId) (conflict : ConflictSet) : Except Stuck Consolidation :=
  match s.current event with
  | some e =>
    if SetWrite e s.seen ((r.view s).conflictSets.get? conflict.id) conflict ∧
        ¬ r.Doomed Erasure.conflictSets conflict.id ∧
        ¬ r.Written s.id Rows.conflictSets conflict.id then
      .ok { s with work.rows.conflictSets := s.work.rows.conflictSets.upsert conflict }
    else .error .stuck
  | none => .error .stuck

/-- `UPDATE events`: key merging. -/
def index (event : EventId) (text : String) : Except Stuck Consolidation :=
  match s.current event with
  | some e =>
    if r.Standing e.id ∧ ¬ r.Written s.id Rows.events e.id then
      .ok { s with work.rows.events := s.work.rows.events.upsert (e.indexed env text) }
    else .error .stuck
  | none => .error .stuck

end

/-- The savepoint of a job is released. -/
def finish (s : Consolidation) : Except Stuck Consolidation :=
  match s.stage with
  | .locking [] => .ok { s with events := [], stage := .between, seen := [] }
  | _ => .error .stuck

/-- A job is rolled back to its savepoint, which also releases the locks it has taken. -/
def fail (s : Consolidation) : Except Stuck Consolidation :=
  match s.stage with
  | .between => .error .stuck
  | _ => .ok { s with
      events := []
      stage := .between
      seen := []
      locks := s.savedLocks
      work := s.saved }

/-- A statement of a job. -/
def turn (env : Env) (s : Consolidation) : JobTurn → Except Stuck Consolidation
  | .read eventIds only => r.read s eventIds only
  | .embed => r.embed env s
  | .chunk => r.chunk env s
  | .lock => r.lock s
  | .look event => r.look s event
  | .writeFact event fact => r.writeFact s event fact
  | .writeConflictSet event conflict => r.writeConflictSet s event conflict
  | .index event text => r.index env s event text
  | .finish => finish s
  | .fail => fail s
  | .commit | .crash => .error .stuck

/-- A consolidation commits what it wrote. -/
def commit (s : Consolidation) : Race :=
  { r with
    rows := r.rows.merge s.work.rows
    consolidations := r.consolidations.filter fun t ↦ t.id ≠ s.id }

/-- A consolidation ends and leaves nothing. -/
def crash (s : Consolidation) : Race :=
  { r with consolidations := r.consolidations.filter fun t ↦ t.id ≠ s.id }

/-- A consolidation goes on. -/
def go (env : Env) (s : Consolidation) : JobTurn → Except Stuck Race
  | .commit =>
    match s.stage with
    | .between => .ok (r.commit s)
    | _ => .error .stuck
  | .crash => .ok (r.crash s)
  | turn =>
    (r.turn env s turn).map fun s' ↦
      { r with consolidations := r.consolidations.update s.id fun _ ↦ s' }

/-! ### The statements of the erasure -/

/-- The committed facts of the subject. -/
def subjectFacts : List FactId :=
  (r.rows.facts.rows.filter fun f ↦ f.scope = r.erasure.scope).map Fact.id

/-- The committed conflict sets of the subject. -/
def subjectConflictSets : List ConflictId :=
  (r.rows.conflictSets.rows.filter fun s ↦ s.scope = r.erasure.scope).map ConflictSet.id

/-- The committed events of the subject. -/
def subjectEvents : List EventId :=
  (r.rows.events.rows.filter fun e ↦ e.scope = r.erasure.scope).map Event.id

/-- No open consolidation has written one of the facts, or refers to one, and no other fact does. -/
def FactsFree (keys : List FactId) : Prop :=
  (∀ t ∈ r.consolidations, ∀ f ∈ t.work.rows.facts,
    f.id ∉ keys ∧ ∀ id ∈ f.supersedesId, id ∉ keys) ∧
  ∀ f ∈ r.rows.facts, f.id ∉ keys → ∀ id ∈ f.supersedesId, id ∉ keys

instance (keys : List FactId) : Decidable (r.FactsFree keys) :=
  inferInstanceAs (Decidable ((∀ t ∈ r.consolidations, ∀ f ∈ t.work.rows.facts,
    f.id ∉ keys ∧ ∀ id ∈ f.supersedesId, id ∉ keys) ∧
    ∀ f ∈ r.rows.facts, f.id ∉ keys → ∀ id ∈ f.supersedesId, id ∉ keys))

/-- No open consolidation has written one of the conflict sets. -/
def ConflictSetsFree (keys : List ConflictId) : Prop :=
  ∀ t ∈ r.consolidations, ∀ s ∈ t.work.rows.conflictSets, s.id ∉ keys

instance (keys : List ConflictId) : Decidable (r.ConflictSetsFree keys) :=
  inferInstanceAs (Decidable (∀ t ∈ r.consolidations, ∀ s ∈ t.work.rows.conflictSets, s.id ∉ keys))

/-- No open consolidation has written one of the events or a chunk of one, or refers to a chunk. -/
def EventsFree (keys : List EventId) : Prop :=
  ∀ t ∈ r.consolidations,
    (∀ e ∈ t.work.rows.events, e.id ∉ keys) ∧
    (∀ c ∈ t.work.rows.chunks, c.id.event ∉ keys) ∧
    ∀ f ∈ t.work.rows.facts, ∀ c ∈ f.sourceChunkId, c.event ∉ keys

instance (keys : List EventId) : Decidable (r.EventsFree keys) :=
  inferInstanceAs (Decidable (∀ t ∈ r.consolidations,
    (∀ e ∈ t.work.rows.events, e.id ∉ keys) ∧
    (∀ c ∈ t.work.rows.chunks, c.id.event ∉ keys) ∧
    ∀ f ∈ t.work.rows.facts, ∀ c ∈ f.sourceChunkId, c.event ∉ keys))

/-- The rows after the erasure has committed; chunks follow their events. -/
def survivors : Rows where
  events := r.rows.events.filter fun e ↦ e.id ∉ r.erasure.events.deleted
  facts := (r.rows.facts.filter fun f ↦ f.id ∉ r.erasure.facts.deleted).modify
    (Fact.unlinkChunks r.erasure.events.deleted)
  conflictSets := r.rows.conflictSets.filter fun s ↦ s.id ∉ r.erasure.conflictSets.deleted
  chunks := r.rows.chunks.filter fun c ↦ c.id.event ∉ r.erasure.events.deleted

/-- The next statement of `_forget_subject`. -/
def erase : ErasureTurn → Except Stuck Race
  | .deleteFacts =>
    match r.erasure.facts with
    | .ahead => .ok { r with erasure.facts := .waiting r.subjectFacts }
    | _ => .error .stuck
  | .factsDeleted =>
    match r.erasure.facts with
    | .waiting keys =>
      if r.FactsFree keys then .ok { r with erasure.facts := .done keys } else .error .stuck
    | _ => .error .stuck
  | .deleteConflictSets =>
    match r.erasure.facts, r.erasure.conflictSets with
    | .done _, .ahead => .ok { r with erasure.conflictSets := .waiting r.subjectConflictSets }
    | _, _ => .error .stuck
  | .conflictSetsDeleted =>
    match r.erasure.conflictSets with
    | .waiting keys =>
      if r.ConflictSetsFree keys then .ok { r with erasure.conflictSets := .done keys }
      else .error .stuck
    | _ => .error .stuck
  | .deleteEvents =>
    match r.erasure.conflictSets, r.erasure.events with
    | .done _, .ahead => .ok { r with erasure.events := .waiting r.subjectEvents }
    | _, _ => .error .stuck
  | .eventsDeleted =>
    match r.erasure.events with
    | .waiting keys =>
      if r.EventsFree keys then .ok { r with erasure.events := .done keys } else .error .stuck
    | _ => .error .stuck
  | .commit =>
    match r.erasure.events with
    | .done _ =>
      if r.erasure.committed then .error .stuck
      else .ok { r with rows := r.survivors, erasure.committed := true }
    | _ => .error .stuck

/-- One step of one of the parties. -/
def step (env : Env) : RaceAction → Except Stuck Race
  | .capture event =>
    if event.id ∈ r.known then .error .stuck
    else .ok { r with
      rows.events := r.rows.events.insert event
      known := r.known ++ [event.id] }
  | .open session =>
    if session ∈ r.consolidations.rows.map Consolidation.id then .error .stuck
    else .ok { r with consolidations := r.consolidations.insert (.new session) }
  | .go session turn =>
    match r.consolidations.get? session with
    | some s => r.go env s turn
    | none => .error .stuck
  | .erase turn => r.erase turn

/-- A run: the parties act one after the other. -/
def run (env : Env) (actions : List RaceAction) : Except Stuck Race := actions.foldlM (step · env) r

end Race

end Haki
