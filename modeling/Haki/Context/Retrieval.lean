import Haki.Context.Cost
import Haki.Context.Ranking

/-!
# Candidate generation

What `build_context` reads from the database before it ranks anything: the
facts and the episode chunks of the scope that pass the hard filters and are
near enough on one of the two axes, with their value on each axis.

Distances, full-text ranks and the recency decay are arbitrary functions of
what they are computed from; axis values are exact rationals.
-/

namespace Haki

open Data

/-! ## What is read -/

/-- A retrievable slice of an event's payload. -/
structure EpisodeChunk where
  id : ChunkId
  scope : Scope
  occurredAt : Timestamp
  originTrust : OriginTrust
  text : String
  indexText : Option String
  embedding : Option Embedding

instance : Keyed EpisodeChunk ChunkId := ⟨EpisodeChunk.id⟩

@[simp] theorem key_episodeChunk (c : EpisodeChunk) : key c = c.id := rfl

/-- A channel identity registered for a canonical subject. -/
structure SubjectAlias where
  projectId : String
  aliasKind : String
  aliasValue : String
  canonicalSubjectId : String

/-- The tables the assembler reads: the ledger, and the two derived from other requests. -/
structure Store where
  ledger : Db
  episodeChunks : Table EpisodeChunk
  subjectAliases : List SubjectAlias

/-- `settings.ranking`. -/
inductive RankingMode where
  | normalized | legacy
deriving DecidableEq, Repr

/-- The settings, the clock and the functions the assembler calls. -/
structure Reader extends Printer where
  /-- `datetime.now()`. -/
  clock : Timestamp
  /-- `Embedder.embed_query` on one text. -/
  embedQuery : String → Embedding
  /-- pgvector's `cosine_distance`. -/
  cosineDistance : Embedding → Embedding → ℚ
  /-- Whether the `tsvector` of a text matches the `tsquery` of a query. -/
  matchesQuery : String → String → Bool
  /-- `ts_rank_cd` of a text for a query, zero for the empty query. -/
  tsRankCd : String → String → ℚ
  /-- `exp(-x / RECENCY_TAU_SECONDS)` of an age. -/
  decay : Int → ℚ
  /-- The text of a `jsonb` column. -/
  jsonbText : Dict → String
  /-- `str` of the primary key of a fact. -/
  strFactId : FactId → String
  /-- `str` of the primary key of a chunk. -/
  strChunkId : ChunkId → String
  /-- `Reranker.rerank`, when reranking is enabled. -/
  rerank : Option (String → List String → List ℚ)
  /-- `settings.recall_max_distance`. -/
  recallMaxDistance : ℚ
  ranking : RankingMode
  volatilityHorizonSlowDays : Int
  volatilityHorizonVolatileDays : Int
  volatilityHorizonEphemeralDays : Int

/-- A fact or an episode, as decisions and callers name it. -/
inductive ItemId where
  | fact (id : FactId)
  | episode (id : ChunkId)
deriving DecidableEq, Repr

/-- The arguments of `build_context`. -/
structure ContextRequest where
  scope : Scope
  query : String
  budgetTokens : Int
  asOf : Option Timestamp
  /-- The parsed `exclude_ids`; `none` is one that is not an id. -/
  excludeIds : List (Option ItemId)
  extraWarnings : List String

namespace ContextRequest

/-- The point of view of the call. -/
def now (reader : Reader) (request : ContextRequest) : Timestamp :=
  request.asOf.getD reader.clock

/-- `excluded`: ids that do not parse are skipped. -/
def excluded (request : ContextRequest) : List ItemId := request.excludeIds.filterMap id

end ContextRequest

/-! ## Facts -/

/-- The hard filters on a fact that do not depend on the caller: active, and valid now. -/
def Fact.Eligible (now : Timestamp) (f : Fact) : Prop :=
  f.status = .active ∧ (∀ t ∈ f.validTo, now < t) ∧ f.validFrom.getD f.recordedFrom ≤ now

instance (now : Timestamp) (f : Fact) : Decidable (f.Eligible now) :=
  inferInstanceAs (Decidable (_ ∧ _ ∧ _))

/-- `scope_filters`. -/
def scopeFilters (reader : Reader) (request : ContextRequest) (f : Fact) : Prop :=
  f.scope = request.scope ∧ f.Eligible (request.now reader) ∧ .fact f.id ∉ request.excluded

instance (reader : Reader) (request : ContextRequest) (f : Fact) :
    Decidable (scopeFilters reader request f) :=
  inferInstanceAs (Decidable (_ ∧ _ ∧ _))

/-- The values of a row on the three axes, and its distance to the query. -/
structure Axes where
  distance : Option ℚ
  similarity : ℚ
  fulltext : ℚ
  recency : ℚ

/-- The axes of a row with a given embedding, indexed text and date. -/
def axesOf (reader : Reader) (request : ContextRequest) (embedding : Option Embedding)
    (indexed : Option String) (date : Timestamp) : Axes :=
  let distance := embedding.map (reader.cosineDistance · (reader.embedQuery request.query))
  { distance := distance
    similarity := (distance.map (1 - ·)).getD 0
    fulltext := reader.tsRankCd (indexed.getD "") request.query
    recency := reader.decay (max (request.now reader - date) 0) }

/-- A fact row of the phase-2 query. -/
structure FactRow where
  fact : Fact
  axes : Axes

/-- A row of the phase-2 query. -/
def factRow (reader : Reader) (request : ContextRequest) (f : Fact) : FactRow :=
  ⟨f, axesOf reader request f.embedding f.searchText (f.validFrom.getD f.recordedFrom)⟩

/-- `RETRIEVAL_TOP_K`, and `EPISODE_TOP_K`. -/
def retrievalTopK : Nat := 64

/-- `CANDIDATE_LIMIT`. -/
def candidateLimit : Nat := 256

/-- Ascending, with missing values last. -/
def compareNullsLast : Option ℚ → Option ℚ → Ordering
  | some a, some b => compare a b
  | some _, none => .lt
  | none, some _ => .gt
  | none, none => .eq

/-- The first rows of an ordering. -/
def topK {α : Type} (cmp : α → α → Ordering) (rows : List α) : List α :=
  (sortedBy cmp rows).take retrievalTopK

theorem mem_of_mem_topK {α : Type} {cmp : α → α → Ordering} {rows : List α} {a : α}
    (h : a ∈ topK cmp rows) : a ∈ rows :=
  mem_sortedBy.mp (List.mem_of_mem_take h)

/-- `_FACT_TIEBREAK`. -/
def factTiebreak (reader : Reader) (f g : Fact) : Ordering :=
  (compare (g.validFrom.getD g.recordedFrom) (f.validFrom.getD f.recordedFrom)).then <|
  (compare f.predicate g.predicate).then <|
  (compare (reader.jsonbText f.value) (reader.jsonbText g.value)).then <|
  compare (reader.strFactId f.id) (reader.strFactId g.id)

/-- The facts that pass the filters, with their axes. -/
def factsInScope (reader : Reader) (request : ContextRequest) (db : Db) : List FactRow :=
  (db.facts.rows.filter fun f ↦ scopeFilters reader request f).map (factRow reader request)

/-- `vector_top`, the nearest facts.  The source reads an approximate `hnsw` index that the subjects
of all projects share, and may miss some of them. -/
def vectorTop (reader : Reader) (request : ContextRequest) (db : Db) : List FactRow :=
  topK (fun a b ↦ (compareNullsLast a.axes.distance b.axes.distance).then
    (factTiebreak reader a.fact b.fact)) (factsInScope reader request db)

/-- `fts_top`. -/
def ftsTop (reader : Reader) (request : ContextRequest) (db : Db) : List FactRow :=
  topK (fun a b ↦ (compare b.axes.fulltext a.axes.fulltext).then
      (factTiebreak reader a.fact b.fact))
    ((factsInScope reader request db).filter fun a ↦
      reader.matchesQuery (a.fact.searchText.getD "") request.query)

/-- `candidates`: the nearest facts, and the best full-text matches. -/
def factCandidates (reader : Reader) (request : ContextRequest) (db : Db) : List FactId :=
  (vectorTop reader request db ++ ftsTop reader request db).map (·.fact.id)

/-- `rows`: the candidates with their axes. -/
def factRows (reader : Reader) (request : ContextRequest) (db : Db) : List FactRow :=
  (sortedBy (fun a b ↦ (compare b.axes.similarity a.axes.similarity).then
      (compare (reader.strFactId a.fact.id) (reader.strFactId b.fact.id)))
    ((db.facts.rows.filter fun f ↦ f.id ∈ factCandidates reader request db).map
      (factRow reader request))).take candidateLimit

/-- A candidate row is a fact that passes the filters. -/
theorem mem_factRows {reader : Reader} {request : ContextRequest} {db : Db} {row : FactRow}
    (h : row ∈ factRows reader request db) :
    row.fact ∈ db.facts ∧ scopeFilters reader request row.fact := by
  obtain ⟨f, hf, rfl⟩ := List.mem_map.mp (mem_sortedBy.mp (List.mem_of_mem_take h))
  obtain ⟨hf, hc⟩ := List.mem_filter.mp hf
  obtain ⟨row, htop, hid⟩ := List.mem_map.mp (of_decide_eq_true hc)
  have hscope : row ∈ factsInScope reader request db := by
    rcases List.mem_append.mp htop with htop | htop
    · exact mem_of_mem_topK htop
    · exact (List.mem_filter.mp (mem_of_mem_topK htop)).1
  obtain ⟨g, hg, rfl⟩ := List.mem_map.mp hscope
  obtain ⟨hg, hfilters⟩ := List.mem_filter.mp hg
  obtain rfl : g = f := Db.eq_of_id_eq hg hf hid
  exact ⟨hf, of_decide_eq_true hfilters⟩

/-- No fact is a candidate twice. -/
theorem nodup_factRows (reader : Reader) (request : ContextRequest) (db : Db) :
    ((factRows reader request db).map (·.fact.id)).Nodup := by
  have hrows : ((db.facts.rows.filter fun f ↦ f.id ∈ factCandidates reader request db).map
      Fact.id).Nodup := db.facts.nodup.sublist (List.filter_sublist.map _)
  rw [factRows, List.map_take]
  refine List.Nodup.sublist (List.take_sublist _ _) ?_
  rw [((sortedBy_perm _ _).map _).nodup_iff, List.map_map]
  exact hrows

/-! ## Episodes -/

/-- A row of the episode query: the chunk and the kind of its event. -/
structure EpisodeRow where
  chunk : EpisodeChunk
  kind : String
  axes : Axes

/-- `episode_scope`. -/
def episodeScope (reader : Reader) (request : ContextRequest) (c : EpisodeChunk) : Prop :=
  c.scope = request.scope ∧ c.embedding.isSome ∧ c.occurredAt ≤ request.now reader ∧
    c.originTrust ≠ .untrusted ∧ .episode c.id ∉ request.excluded

instance (reader : Reader) (request : ContextRequest) (c : EpisodeChunk) :
    Decidable (episodeScope reader request c) :=
  inferInstanceAs (Decidable (_ ∧ _ ∧ _ ∧ _ ∧ _))

/-- `_EPISODE_TIEBREAK`. -/
def episodeTiebreak (reader : Reader) (c d : EpisodeChunk) : Ordering :=
  (compare d.occurredAt c.occurredAt).then <|
  (compare d.id.ordinal c.id.ordinal).then <|
  compare (reader.strChunkId c.id) (reader.strChunkId d.id)

/-- The axes of a chunk. -/
def chunkAxes (reader : Reader) (request : ContextRequest) (c : EpisodeChunk) : Axes :=
  axesOf reader request c.embedding c.indexText c.occurredAt

/-- The chunks that pass the filters. -/
def chunksInScope (reader : Reader) (request : ContextRequest) (store : Store) :
    List EpisodeChunk :=
  store.episodeChunks.rows.filter fun c ↦ episodeScope reader request c

/-- `episode_vector_top`, exact as `vectorTop` is. -/
def episodeVectorTop (reader : Reader) (request : ContextRequest) (store : Store) :
    List EpisodeChunk :=
  topK (fun c d ↦ (compareNullsLast (chunkAxes reader request c).distance
      (chunkAxes reader request d).distance).then (episodeTiebreak reader c d))
    (chunksInScope reader request store)

/-- `episode_fts_top`. -/
def episodeFtsTop (reader : Reader) (request : ContextRequest) (store : Store) :
    List EpisodeChunk :=
  topK (fun c d ↦ (compare (chunkAxes reader request d).fulltext
      (chunkAxes reader request c).fulltext).then (episodeTiebreak reader c d))
    ((chunksInScope reader request store).filter fun c ↦
      reader.matchesQuery (c.indexText.getD "") request.query)

/-- `episode_candidates`. -/
def episodeCandidates (reader : Reader) (request : ContextRequest) (store : Store) :
    List ChunkId :=
  (episodeVectorTop reader request store ++ episodeFtsTop reader request store).map
    EpisodeChunk.id

/-- The row of a chunk, joined with its event. -/
def episodeRow? (reader : Reader) (request : ContextRequest) (store : Store) (c : EpisodeChunk) :
    Option EpisodeRow :=
  (store.ledger.events.get? c.id.event).map fun e ↦ ⟨c, e.kind, chunkAxes reader request c⟩

/-- `episode_rows`. -/
def episodeRows (reader : Reader) (request : ContextRequest) (store : Store) : List EpisodeRow :=
  sortedBy (fun a b ↦ (compare b.axes.similarity a.axes.similarity).then
      (compare (reader.strChunkId a.chunk.id) (reader.strChunkId b.chunk.id)))
    ((store.episodeChunks.rows.filter fun c ↦
      c.id ∈ episodeCandidates reader request store).filterMap (episodeRow? reader request store))

/-- An episode row is the chunk of an event, and passes the filters. -/
theorem mem_episodeRows {reader : Reader} {request : ContextRequest} {store : Store}
    {row : EpisodeRow} (h : row ∈ episodeRows reader request store) :
    row.chunk ∈ store.episodeChunks ∧ episodeScope reader request row.chunk := by
  obtain ⟨c, hc, hrow⟩ := List.mem_filterMap.mp (mem_sortedBy.mp h)
  obtain ⟨hmem, hcandidate⟩ := List.mem_filter.mp hc
  obtain ⟨e, -, rfl⟩ := Option.map_eq_some_iff.mp hrow
  obtain ⟨d, htop, hid⟩ := List.mem_map.mp (of_decide_eq_true hcandidate)
  have hscope : d ∈ chunksInScope reader request store := by
    rcases List.mem_append.mp htop with htop | htop
    · exact mem_of_mem_topK htop
    · exact (List.mem_filter.mp (mem_of_mem_topK htop)).1
  obtain ⟨hd, hfilters⟩ := List.mem_filter.mp hscope
  obtain rfl : d = c := Table.eq_of_key_eq hd hmem hid
  exact ⟨hmem, of_decide_eq_true hfilters⟩

/-- No chunk is a row twice. -/
theorem nodup_episodeRows (reader : Reader) (request : ContextRequest) (store : Store) :
    ((episodeRows reader request store).map (·.chunk.id)).Nodup := by
  have hrows : ((store.episodeChunks.rows.filter fun c ↦
      c.id ∈ episodeCandidates reader request store).map EpisodeChunk.id).Nodup :=
    store.episodeChunks.nodup.sublist (List.filter_sublist.map _)
  have hsub (chunks : List EpisodeChunk) :
      ((chunks.filterMap (episodeRow? reader request store)).map (·.chunk.id)).Sublist
        (chunks.map EpisodeChunk.id) := by
    induction chunks with
    | nil => exact .refl _
    | cons c chunks ih =>
      rw [List.filterMap_cons, List.map_cons]
      split
      · exact ih.cons _
      · next row hrow =>
        obtain ⟨e, -, rfl⟩ := Option.map_eq_some_iff.mp hrow
        exact ih.cons_cons _
  rw [episodeRows, ((sortedBy_perm _ _).map _).nodup_iff]
  exact hrows.sublist (hsub _)

/-- A row of the unified pool. -/
inductive PoolRow where
  | fact (row : FactRow)
  | episode (row : EpisodeRow)

namespace PoolRow

def axes : PoolRow → Axes
  | .fact row => row.axes
  | .episode row => row.axes

/-- The key decisions name the row by. -/
def id : PoolRow → ItemId
  | .fact row => .fact row.fact.id
  | .episode row => .episode row.chunk.id

end PoolRow

end Haki
