import Haki.Data.Ascending
import Haki.Ledger.Subjects
import Haki.System
import Mathlib.Data.List.Lex
import Mathlib.Data.Prod.Lex

/-!
# The index of the episode chunks

`_merge_facts_into_chunk_index`: after the candidates of an event are applied,
the chunks of the facts the event touched get an index text that names these
facts.  The chunks stand next to the ledger here: a job writes the chunks of
its events first, and does to the ledger what `processJob` does
(`processJobIndexed_fst`).
-/

namespace Haki

open Data Control

/-- How the database writes a value as a text, and compares texts and primary keys. -/
structure IndexOrder where
  /-- `cast(value, Text)`. -/
  castText : Dict → String
  /-- The sort key of a text under the collation of the database. -/
  sortKey : String → List ℕ
  /-- The primary key of a fact, as a number. -/
  uuid : FactId → ℕ
  uuid_injective : Function.Injective uuid

/-- `ORDER BY recorded_from, predicate, cast(value, Text), id`. -/
def IndexOrder.key (order : IndexOrder) (f : Fact) : Timestamp ×ₗ List ℕ ×ₗ List ℕ ×ₗ ℕ :=
  toLex (f.recordedFrom, toLex (order.sortKey f.predicate,
    toLex (order.sortKey (order.castText f.value), order.uuid f.id)))

/-- The index text of a chunk and the facts extracted from it. -/
def chunkIndexText (text : String) (facts : List Fact) : String :=
  text ++ " FACTS: " ++ "; ".intercalate (facts.map fun f ↦ searchText f.predicate f.value)

/-- A new index text is embedded; the same one is not embedded again. -/
def EpisodeChunk.reindex (env : Env) (c : EpisodeChunk) (indexText : String) : EpisodeChunk :=
  if c.indexText = some indexText then c
  else { c with indexText := some indexText, embedding := some (env.embed indexText) }

@[simp] theorem EpisodeChunk.reindex_id (env : Env) (c : EpisodeChunk) (indexText : String) :
    (c.reindex env indexText).id = c.id := by
  rw [reindex]
  split <;> rfl

@[simp] theorem EpisodeChunk.reindex_text (env : Env) (c : EpisodeChunk) (indexText : String) :
    (c.reindex env indexText).text = c.text := by
  rw [reindex]
  split <;> rfl

@[simp] theorem EpisodeChunk.reindex_indexText (env : Env) (c : EpisodeChunk) (indexText : String) :
    (c.reindex env indexText).indexText = some indexText := by
  rw [reindex]
  split
  · assumption
  · rfl

/-- The chunk with facts in its index; without any it stays as it is. -/
def EpisodeChunk.merge (env : Env) (c : EpisodeChunk) (facts : List Fact) : EpisodeChunk :=
  if facts = [] then c else c.reindex env (chunkIndexText c.text facts)

@[simp] theorem EpisodeChunk.merge_id (env : Env) (c : EpisodeChunk) (facts : List Fact) :
    (c.merge env facts).id = c.id := by
  rw [merge]
  split
  · rfl
  · exact c.reindex_id env _

@[simp] theorem EpisodeChunk.merge_text (env : Env) (c : EpisodeChunk) (facts : List Fact) :
    (c.merge env facts).text = c.text := by
  rw [merge]
  split
  · rfl
  · exact c.reindex_text env _

/-- The facts an event touched that have a chunk, in order. -/
def touchedFacts (order : IndexOrder) (db : Db) (event : Event) : List Fact :=
  ascending order.key
    (db.facts.rows.filter fun f ↦ event.id ∈ f.sourceEventIds ∧ f.sourceChunkId.isSome)

/-- `_merge_facts_into_chunk_index`. -/
def mergeFactsIntoChunkIndex (env : Env) (order : IndexOrder) (db : Db) (event : Event)
    (chunks : Table EpisodeChunk) : Table EpisodeChunk :=
  let facts := touchedFacts order db event
  chunks.modify fun c ↦ c.merge env (facts.filter fun f ↦ f.sourceChunkId = some c.id)

/-- One round of the event loop, with the chunks. -/
def processEventIndexed (env : Env) (order : IndexOrder) (extract : Extractor)
    (state : (Db × JobResult) × Table EpisodeChunk) (event : Event) :
    Except LedgerError ((Db × JobResult) × Table EpisodeChunk) := do
  let raws ← orRaise .provider (extract event (existingViews env state.1.1 event))
  let result := raws.foldl (countGate env event) state.1.2
  let candidates := admitted env event raws
  if candidates.isEmpty then pure ((state.1.1, result), state.2)
  else
    let (db, result) ← candidates.foldlM (applyAdmitted env event) (state.1.1, result)
    let db := indexTouchedFacts env db event
    pure ((db, result), mergeFactsIntoChunkIndex env order db event state.2)

/-- `_process_job`, with the chunks. -/
def processJobIndexed (env : Env) (order : IndexOrder) (extract : Extractor) (db : Db)
    (chunks : Table EpisodeChunk) (eventIds : List EventId) (only : Option (List EventId)) :
    Except LedgerError ((Db × JobResult) × Table EpisodeChunk) :=
  let events := jobEvents db eventIds only
  events.foldlM (processEventIndexed env order extract)
    ((events.foldl (embedEvent env) db, {}), writeEpisodeChunks env chunks events)

/-- The index of the chunks does not bear on the ledger. -/
theorem processEventIndexed_fst (env : Env) (order : IndexOrder) (extract : Extractor)
    (state : (Db × JobResult) × Table EpisodeChunk) (event : Event) :
    (processEventIndexed env order extract state event).map Prod.fst =
      processEvent env extract state.1 event := by
  rw [processEventIndexed, processEvent]
  cases orRaise .provider (extract event (existingViews env state.1.1 event)) with
  | error e => rfl
  | ok raws =>
    simp only [ok_bind]
    split
    · rfl
    · cases (admitted env event raws).foldlM (applyAdmitted env event)
        (state.1.1, raws.foldl (countGate env event) state.1.2) <;> rfl

theorem processJobIndexed_fst (env : Env) (order : IndexOrder) (extract : Extractor) (db : Db)
    (chunks : Table EpisodeChunk) (eventIds : List EventId) (only : Option (List EventId)) :
    (processJobIndexed env order extract db chunks eventIds only).map Prod.fst =
      processJob env extract db eventIds only :=
  foldlM_map (processEventIndexed_fst env order extract) _ _

/-! ## Runs -/

/-- A write on the way from the events to the index. -/
inductive Ingest where
  /-- `POST /v1/capture` of one new event. -/
  | capture (event : Event)
  /-- One consolidate job. -/
  | consolidate (now : Timestamp) (extract : Extractor) (eventIds : List EventId)
      (only : Option (List EventId))

namespace Ingest

/-- The transaction of a write, on the ledger and the chunks. -/
def exec (env : Env) (order : IndexOrder) (s : Db × Table EpisodeChunk) :
    Ingest → Except LedgerError (Db × Table EpisodeChunk)
  | .capture event => .ok ({ s.1 with events := s.1.events.insert event }, s.2)
  | .consolidate now extract eventIds only =>
    (processJobIndexed (env.at now) order extract s.1 s.2 eventIds only).map fun r ↦ (r.1.1, r.2)

/-- The state after a write: a failed transaction is rolled back. -/
def run (env : Env) (order : IndexOrder) (s : Db × Table EpisodeChunk) (ingest : Ingest) :
    Db × Table EpisodeChunk :=
  match ingest.exec env order s with
  | .ok s' => s'
  | .error _ => s

/-- The write as an operation of the ledger. -/
def op : Ingest → Op
  | .capture event => .capture event
  | .consolidate now extract eventIds only => .consolidate now extract eventIds only

theorem run_fst (env : Env) (order : IndexOrder) (s : Db × Table EpisodeChunk) (ingest : Ingest) :
    (ingest.run env order s).1 = ingest.op.run env s.1 := by
  cases ingest with
  | capture event => rfl
  | consolidate now extract eventIds only =>
    have hjob := processJobIndexed_fst (env.at now) order extract s.1 s.2 eventIds only
    rw [run, exec, op, Op.run, Op.exec, ← hjob]
    cases processJobIndexed (env.at now) order extract s.1 s.2 eventIds only <;> rfl

end Ingest

/-- The state after a list of writes. -/
def runIngests (env : Env) (order : IndexOrder) (s : Db × Table EpisodeChunk)
    (ingests : List Ingest) : Db × Table EpisodeChunk :=
  ingests.foldl (Ingest.run env order) s

/-- The ledger next to the chunks goes through the states of a run of the ledger. -/
theorem runIngests_fst (env : Env) (order : IndexOrder) (s : Db × Table EpisodeChunk)
    (ingests : List Ingest) :
    (runIngests env order s ingests).1 = runOps env s.1 (ingests.map Ingest.op) := by
  induction ingests generalizing s with
  | nil => rfl
  | cons ingest ingests ih =>
    rw [List.map_cons, runOps, List.foldl_cons, ← Ingest.run_fst]
    exact ih (ingest.run env order s)

end Haki
