import Haki.Context.Assembler
import Haki.Data.PyStr
import Haki.System

/-!
# A concrete environment

An environment in which two texts are either the same or unrelated, no text
names a date and no text is a directive, and short forms for events,
candidates and the operations that store them.
-/

namespace Haki

open Data

/-- Texts are near only when they are equal; nothing names a date. -/
def Env.sample : Env where
  now := 0
  embed text := text.toList.map fun c ↦ (c.toNat : ℚ)
  cosineDistance v w := if v = w then 0 else 1
  chunkPayload _ _ := []
  casefold text := text
  datesIn _ := some []
  resolveRelativeRange _ _ := some none
  observedAtOf _ _ := some none
  matchesDirective _ := false

/-- Every event is one chunk. -/
def Env.sampleChunks : Env := { Env.sample with chunkPayload := fun _ _ ↦ ["text"] }

/-- Every text matches every query, nothing is too far, and lines are short. -/
def Reader.sample : Reader where
  isoformat _ := "2026-01-01T00:00:00"
  strJson _ := "value"
  strConflictId _ := "conflict"
  clock := 100
  embedQuery _ := []
  cosineDistance _ _ := 0
  matchesQuery _ _ := true
  tsRankCd _ _ := 0
  decay _ := 0
  jsonbText _ := ""
  strFactId _ := "fact"
  strChunkId _ := "chunk"
  rerank := none
  recallMaxDistance := 0
  ranking := .normalized
  volatilityHorizonSlowDays := 365
  volatilityHorizonVolatileDays := 60
  volatilityHorizonEphemeralDays := 7

theorem Reader.sample_aligned : Reader.sample.RerankAligned := by
  rintro _ ⟨⟩

/-- The same with Python's `str`. -/
def Reader.python : Reader := { Reader.sample with strJson := Json.pyStr fun _ ↦ true }

theorem Reader.python_aligned : Reader.python.RerankAligned := Reader.sample_aligned

namespace Sample

/-- The subject of the samples. -/
def scope : Scope := ⟨"project", "subject"⟩

/-- The object with one entry. -/
def entry (k v : String) : Dict := Table.empty.insert (k, .str v)

/-- An event of the subject, at time `id`. -/
def event (id : EventId) (originTrust : OriginTrust) : Event where
  id := id
  scope := scope
  kind := "message"
  payload := .empty
  occurredAt := id
  actorId := none
  originTrust := originTrust

/-- A fact born from an event. -/
def born (event : EventId) : Fact where
  id := ⟨event, 0⟩
  scope := scope
  predicate := "city"
  value := .empty
  qualifiers := .empty
  status := .active
  validFrom := none
  validTo := none
  recordedFrom := 0
  recordedTo := none
  supersedesId := none
  sourceEventIds := [event]
  version := 1
  reinforcementCount := 0
  lastReinforcedAt := none
  factKind := .attribute
  volatility := .stable
  memoryForm := .state
  reclassifiedAt := none
  originTrust := .trusted
  temporalRange := none
  observedAt := none
  evidenceSpan := none
  sourceChunkId := some ⟨event, 0⟩
  embedding := none
  searchText := none

/-- A candidate that asserts `predicate` to be `v`. -/
def create (predicate v : String) : Candidate where
  predicate := predicate
  value := entry "value" v

/-- A candidate that replaces `predicate` by `v`. -/
def supersede (predicate v : String) : Candidate :=
  { create predicate v with action := .supersede }

/-- A query about the subject. -/
def request : ContextRequest where
  scope := scope
  query := "Where does the subject live?"
  budgetTokens := 3000
  asOf := none
  excludeIds := []
  extraWarnings := []

/-- A ledger without episode chunks and subject aliases. -/
def store (db : Db) : Store := ⟨db, .empty, []⟩

/-- The fact ids a call serves. -/
def served (db : Db) : List FactId :=
  match buildContext .sample (store db) request with
  | .ok built => built.packet.facts.map (·.item.id)
  | .error _ => []

theorem mem_served {db : Db} {id : FactId} (h : id ∈ served db) :
    ∃ built, buildContext .sample (store db) request = .ok built ∧
      ∃ printed ∈ built.packet.facts, printed.item.id = id := by
  rw [served] at h
  cases hb : buildContext .sample (store db) request with
  | error e => simp [hb] at h
  | ok built =>
    rw [hb] at h
    exact ⟨built, rfl, List.mem_map.mp h⟩

/-- Of one ranked row, the facts that are served can be found without ranking. -/
theorem served_eq {db : Db} (h : (gatedRows .sample (store db) request).1.length ≤ 1) :
    served db = ((gatedRows .sample (store db) request).1.foldl
      (Packing.packRow (packingCall .sample (store db) request))
      { decisions := (gatedRows .sample (store db) request).2 }).facts.map (·.item.id) := by
  rw [served, buildContext_eq .sample _ _ (by decide),
    packedContext_eq_foldl _ _ Reader.sample_aligned h]
  rfl

/-- A provider that returns the same candidates for every event. -/
def always (candidates : List Candidate) : Extractor := fun _ _ ↦ some (candidates.map .valid)

/-- Capture an event and consolidate it, the provider returning `candidates` for it. -/
def observe (e : Event) (candidates : List Candidate) : List Op :=
  [.capture e,
    .consolidate e.occurredAt
      (fun e' _ ↦ some (if e'.id = e.id then candidates.map .valid else [])) [e.id] none]

theorem observe_isConsolidation {e : Event} {candidates : List Candidate} :
    ∀ op ∈ observe e candidates, op.IsConsolidation := by
  simp [observe, Op.IsConsolidation]

/-- The subject lives in Lyon. -/
def lyon : Db := runOps .sample .empty (observe (event 1 .trusted) [create "city" "Lyon"])

theorem lyon_reachable : Reachable .sample Op.IsConsolidation lyon :=
  ⟨_, observe_isConsolidation, rfl⟩

/-- `Nice` contradicts `Lyon`. -/
def lyonOrNice : List Op :=
  observe (event 1 .trusted) [create "city" "Lyon"] ++
    observe (event 2 .trusted) [create "city" "Nice"]

/-- The ledger after the contradiction. -/
def disputed : Store := store (runOps .sample .empty lyonOrNice)

/-- Both are served. -/
theorem served_lyonOrNice : served (runOps .sample .empty lyonOrNice) = [⟨1, 0⟩, ⟨2, 0⟩] := by
  rw [served_eq (by decide +kernel)]
  decide +kernel

theorem lyonOrNice_isConsolidation : ∀ op ∈ lyonOrNice, op.IsConsolidation := by
  simp [lyonOrNice, observe, Op.IsConsolidation]

end Sample

end Haki
