import Haki.Context.Retrieval

/-!
# The unified pool

Facts and episodes are ordered in one pool: relevance adjusted by the person a
fact is about, then recency, then content, then the primary key.  A reranker,
when there is one, reorders the first rows only.
-/

namespace Haki

open Data

/-! ## Entities -/

/-- `[A-ZÀ-Ý]`. -/
def isEntityStart (c : Char) : Bool :=
  ('A' ≤ c ∧ c ≤ 'Z') ∨ (0xC0 ≤ c.toNat ∧ c.toNat ≤ 0xDD)

/-- `[a-zà-ÿ]`. -/
def isEntityRest (c : Char) : Bool :=
  ('a' ≤ c ∧ c ≤ 'z') ∨ (0xE0 ≤ c.toNat ∧ c.toNat ≤ 0xFF)

/-- The tokens found so far, and the reversed one being read. -/
structure EntityScan where
  found : List String := []
  current : List Char := []

/-- A token ends: it counts when two lowercase letters follow its capital. -/
def EntityScan.close (scan : EntityScan) : EntityScan :=
  if 3 ≤ scan.current.length then
    { found := scan.found ++ [String.ofList scan.current.reverse] }
  else { found := scan.found }

/-- One character: it extends the token being read, starts one, or ends it. -/
def EntityScan.step (scan : EntityScan) (c : Char) : EntityScan :=
  if isEntityRest c ∧ scan.current ≠ [] then { scan with current := c :: scan.current }
  else if isEntityStart c then { scan.close with current := [c] }
  else scan.close

/-- `_ENTITY_TOKEN_RE.findall`. -/
def entityTokens (text : String) : List String :=
  (text.toList.foldl EntityScan.step {}).close.found

/-- `_ENTITY_STOPWORDS`. -/
def entityStopwords : List String :=
  ["the", "this", "that", "these", "those", "there", "here", "and", "with",
    "when", "where", "what", "which", "who",
    "le", "la", "les", "un", "une", "des", "ce", "cette", "ces", "et", "avec"]

/-- `_query_entities`. -/
def queryEntities (query : String) : List String :=
  (entityTokens query).filter fun token ↦ token.toLower ∉ entityStopwords

/-- `ENTITY_MATCH_BOOST`. -/
def entityMatchBoost : ℚ := 1

/-- `ENTITY_MISMATCH_PENALTY`. -/
def entityMismatchPenalty : ℚ := 7 / 10

/-- `_entity_adjusted_score`. -/
def entityAdjustedScore (score : ℚ) (value : Dict) (entities : List String) : ℚ :=
  match value.value? "person" with
  | some (.str person) =>
    if entities = [] ∨ person = "" then score
    else
      let tokens := entityTokens person
      let matched := if tokens = [] then person ∈ entities else ∃ token ∈ tokens, token ∈ entities
      score * if matched then entityMatchBoost else entityMismatchPenalty
  | _ => score

/-! ## Order -/

/-- Four hexadecimal digits. -/
def hex4 (n : Nat) : List Char :=
  [n / 4096 % 16, n / 256 % 16, n / 16 % 16, n % 16].map Nat.digitChar

/-- What `ensure_ascii=True` writes for a character. -/
def asciiEscape (c : Char) : List Char :=
  let n := c.toNat
  if n < 127 then [c]
  else if n < 0x10000 then '\\' :: 'u' :: hex4 n
  else
    '\\' :: 'u' :: hex4 (0xD800 + (n - 0x10000) / 1024) ++
      '\\' :: 'u' :: hex4 (0xDC00 + (n - 0x10000) % 1024)

/-- `json.dumps(value, sort_keys=True)`. -/
def dumpsAscii (value : Dict) : String :=
  String.ofList ((value.dumps .default).toList.flatMap asciiEscape)

/-- `_content_tiebreak`. -/
def contentTiebreak : PoolRow → Int × String
  | .fact row =>
    (0, row.fact.predicate ++ String.ofList [Char.ofNat 0] ++ dumpsAscii row.fact.value)
  | .episode row => (-row.chunk.id.ordinal, row.chunk.text)

/-- `str(row.id)`. -/
def PoolRow.strId (reader : Reader) : PoolRow → String
  | .fact row => reader.strFactId row.fact.id
  | .episode row => reader.strChunkId row.chunk.id

/-- A row of the pool with its score. -/
structure Ranked where
  score : ℚ
  row : PoolRow

/-- The sort key of the pool. -/
def comparePool (reader : Reader) (a b : Ranked) : Ordering :=
  (compare b.score a.score).then <|
  (compare b.row.axes.recency a.row.axes.recency).then <|
  (compare (contentTiebreak a.row).1 (contentTiebreak b.row).1).then <|
  (compare (contentTiebreak a.row).2 (contentTiebreak b.row).2).then <|
  compare (a.row.strId reader) (b.row.strId reader)

/-- The score of a row, adjusted by the person it is about. -/
def PoolRow.adjustedScore (entities : List String) (score : ℚ) : PoolRow → ℚ
  | .fact row => entityAdjustedScore score row.fact.value entities
  | .episode _ => score

/-- `scores`: relevance, or the legacy sum. -/
def scores (reader : Reader) (survivors : List PoolRow) : Except ContextError (List ℚ) :=
  let similarity := survivors.map (·.axes.similarity)
  let fulltext := survivors.map (·.axes.fulltext)
  match reader.ranking with
  | .legacy => .ok (legacyWeightedSum similarity fulltext (survivors.map (·.axes.recency)))
  | .normalized => relevance similarity fulltext

/-- `pool`: the survivors in order. -/
def rankPool (reader : Reader) (query : String) (survivors : List PoolRow) :
    Except ContextError (List Ranked) := do
  let scores ← scores reader survivors
  pure <| sortedBy (comparePool reader) <| List.zipWith
    (fun score row ↦ ⟨row.adjustedScore (queryEntities query) score, row⟩) scores survivors

/-! ## Reranking -/

/-- `RERANK_TOP_K`. -/
def rerankTopK : Nat := 50

/-- `EPISODE_EXCERPT_CHARS`. -/
def episodeExcerptChars : Nat := 4000

/-- `episode_row_excerpt`. -/
def episodeRowExcerpt (row : EpisodeRow) : String :=
  String.ofList (row.chunk.text.toList.take episodeExcerptChars)

/-- The document a row is reranked as. -/
def PoolRow.document : PoolRow → String
  | .fact row => row.fact.predicate ++ " " ++ row.fact.value.dumps .default
  | .episode row => episodeRowExcerpt row

/-- The pool after the reranker, if there is one. -/
def rerankPool (reader : Reader) (query : String) (pool : List Ranked) : List Ranked :=
  match reader.rerank with
  | none => pool
  | some rerank =>
    let head := pool.take rerankTopK
    let scores := rerank query (head.map (·.row.document))
    sortedBy (fun a b ↦ compare b.score a.score)
        (List.zipWith (fun score item ↦ { item with score := score }) scores head) ++
      pool.drop rerankTopK

/-! ## What the pool holds -/

private theorem mem_of_mem_zipWith {α β γ : Type} {f : α → β → γ} {c : γ} {as : List α}
    {bs : List β} (h : c ∈ List.zipWith f as bs) : ∃ a, ∃ b ∈ bs, f a b = c := by
  rw [← List.map_uncurry_zip_eq_zipWith] at h
  obtain ⟨⟨a, b⟩, hab, hf⟩ := List.mem_map.mp h
  exact ⟨a, b, (List.of_mem_zip hab).2, hf⟩

private theorem zipWith_right {α β γ : Type} {as : List α} {bs : List β} (g : β → γ)
    (h : as.length = bs.length) : List.zipWith (fun _ b ↦ g b) as bs = bs.map g := by
  rw [← List.map_uncurry_zip_eq_zipWith]
  calc (as.zip bs).map (Function.uncurry fun _ b ↦ g b)
      = ((as.zip bs).map Prod.snd).map g := List.map_map.symm
    _ = bs.map g := by rw [List.map_snd_zip h.ge]

/-- Ranking adds no row. -/
theorem mem_rankPool {reader : Reader} {query : String} {survivors : List PoolRow}
    {pool : List Ranked} (h : rankPool reader query survivors = .ok pool) {a : Ranked}
    (ha : a ∈ pool) : a.row ∈ survivors := by
  rw [rankPool] at h
  cases hs : scores reader survivors with
  | error e => simp [hs, bind, Except.bind] at h
  | ok values =>
    simp only [hs, bind, Except.bind, pure, Except.pure, Except.ok.injEq] at h
    subst h
    obtain ⟨-, row, hrow, rfl⟩ := mem_of_mem_zipWith (mem_sortedBy.mp ha)
    exact hrow

/-- Ranking succeeds, and only reorders the rows. -/
theorem rankPool_perm (reader : Reader) (query : String) (survivors : List PoolRow) :
    ∃ pool, rankPool reader query survivors = .ok pool ∧ (pool.map Ranked.row).Perm survivors := by
  have hscores : ∃ values, scores reader survivors = .ok values ∧
      values.length = survivors.length := by
    cases hranking : reader.ranking with
    | legacy =>
      refine ⟨_, by rw [scores, hranking], ?_⟩
      simp [legacyWeightedSum]
    | normalized =>
      have haxes : (survivors.map (·.axes.similarity)).length =
          (survivors.map (·.axes.fulltext)).length := by simp
      obtain ⟨values, hvalues, hlength⟩ := relevance_eq_ok haxes
      exact ⟨values, by rw [scores, hranking, ← hvalues], by rw [hlength, List.length_map]⟩
  obtain ⟨values, hvalues, hlength⟩ := hscores
  refine ⟨_, by rw [rankPool, hvalues]; rfl, ((sortedBy_perm _ _).map Ranked.row).trans ?_⟩
  rw [List.map_zipWith, zipWith_right (fun row ↦ row) hlength, List.map_id']

/-- Reranking adds no row. -/
theorem mem_rerankPool {reader : Reader} {query : String} {pool : List Ranked} {a : Ranked}
    (ha : a ∈ rerankPool reader query pool) : ∃ b ∈ pool, b.row = a.row := by
  rw [rerankPool] at ha
  split at ha
  · exact ⟨a, ha, rfl⟩
  · rcases List.mem_append.mp ha with ha | ha
    · obtain ⟨-, b, hb, rfl⟩ := mem_of_mem_zipWith (mem_sortedBy.mp ha)
      exact ⟨b, List.mem_of_mem_take hb, rfl⟩
    · exact ⟨a, List.mem_of_mem_drop ha, rfl⟩

/-- A reranker returns its scores aligned with the documents. -/
def Reader.RerankAligned (reader : Reader) : Prop :=
  ∀ rerank ∈ reader.rerank, ∀ query documents, (rerank query documents).length = documents.length

/-- An aligned reranker only reorders the rows. -/
theorem rerankPool_perm {reader : Reader} (haligned : reader.RerankAligned) (query : String)
    (pool : List Ranked) :
    ((rerankPool reader query pool).map Ranked.row).Perm (pool.map Ranked.row) := by
  rw [rerankPool]
  split
  · exact .refl _
  · next rerank hrerank =>
    have hlength := haligned rerank hrerank query
      ((pool.take rerankTopK).map fun item ↦ item.row.document)
    rw [List.length_map] at hlength
    have hhead := (sortedBy_perm (fun a b : Ranked ↦ compare b.score a.score)
      (List.zipWith (fun score item ↦ { item with score := score })
        (rerank query ((pool.take rerankTopK).map fun item ↦ item.row.document))
        (pool.take rerankTopK))).map Ranked.row
    rw [List.map_zipWith, zipWith_right Ranked.row hlength] at hhead
    rw [List.map_append]
    refine (hhead.append_right _).trans (.of_eq ?_)
    rw [← List.map_append, List.take_append_drop]

/-- Whatever a reranker returns, no row is there twice that was not before. -/
theorem rerankPool_subperm (reader : Reader) (query : String) (pool : List Ranked) :
    List.Subperm ((rerankPool reader query pool).map Ranked.row) (pool.map Ranked.row) := by
  rw [rerankPool]
  split
  · exact .refl _
  · next rerank hrerank =>
    have hzip (scores : List ℚ) (head : List Ranked) :
        ((List.zipWith (fun score item ↦ ({ item with score := score } : Ranked)) scores head).map
          Ranked.row).Sublist (head.map Ranked.row) := by
      induction scores generalizing head with
      | nil => exact List.nil_sublist _
      | cons score scores ih =>
        cases head with
        | nil => exact .refl _
        | cons item head => exact (ih head).cons_cons _
    rw [List.map_append]
    calc List.Subperm _ ((pool.take rerankTopK).map Ranked.row ++
          (pool.drop rerankTopK).map Ranked.row) :=
          ((List.subperm_append_right _).mpr ((((sortedBy_perm _ _).map Ranked.row).subperm).trans
            (hzip _ _).subperm))
      _ = pool.map Ranked.row := by rw [← List.map_append, List.take_append_drop]

end Haki
