import Haki.Context.Assembler
import Haki.Context.Keys
import Haki.Sample
import Mathlib.Data.Nat.Pairing

/-!
# What the primary keys decide

The rows a call has retrieved, ranked and packed under the primary keys that
the database has drawn for them.  What is packed does not depend on the order
of the rows, and under other keys it is printed the same as long as two rows
that tie in relevance, recency and content are printed the same and not
contested.
-/

namespace Haki

open Data

/-! ## Rows and keys -/

/-- The primary keys of the rows, as `str` writes them.  Conflict sets and packets name a row by its
key, so that they follow it when it gets another one. -/
structure RowKeys where
  str : ItemId → String
  injective : Function.Injective str

/-- The reader of a database that has drawn these keys. -/
def Reader.under (reader : Reader) (keys : RowKeys) : Reader :=
  { reader with
    strFactId := fun id ↦ keys.str (.fact id)
    strChunkId := fun id ↦ keys.str (.episode id) }

/-- What ranking and packing depend on apart from the rows. -/
structure PackingContext where
  reader : Reader
  now : Timestamp
  query : String
  budgetTokens : Nat
  /-- The open conflict sets of the scope. -/
  conflicts : List ConflictSet
  /-- `contested_rows_by_id`. -/
  contestedRow : FactId → Option Fact

namespace PackingContext

variable (c : PackingContext)

/-- The packing loop of the call. -/
def call (keys : RowKeys) : PackingCall where
  reader := c.reader.under keys
  now := c.now
  budgetTokens := c.budgetTokens
  contestedConflict := contestedConflict c.conflicts
  contestedRow := c.contestedRow

/-- The retrieved rows that pass the recall gate. -/
def survivors (rows : List PoolRow) : List PoolRow :=
  rows.filter fun row ↦ ¬ BelowRelevanceFloor c.reader row

/-- The pool in the order it is packed. -/
def pool (keys : RowKeys) (rows : List PoolRow) : List Ranked :=
  match rankPool (c.reader.under keys) c.query (c.survivors rows) with
  | .ok pool => rerankPool (c.reader.under keys) c.query pool
  | .error _ => []

/-- The retrieved rows, ranked and packed. -/
def packRows (keys : RowKeys) (decisions : List Decision) (rows : List PoolRow) : Packing :=
  pack (c.call keys) decisions (c.pool keys rows)

end PackingContext

/-- The rows that a call has retrieved, outside quarantine. -/
def retrievedRows (reader : Reader) (store : Store) (request : ContextRequest) : List PoolRow :=
  ((factRows reader request store.ledger).filter fun row ↦
    row.fact.id ∉ quarantinedIds (store.ledger.openConflictSets request.scope)).map PoolRow.fact ++
    (episodeRows reader request store).map PoolRow.episode

/-- What a call ranks and packs with. -/
def packingContext (reader : Reader) (store : Store) (request : ContextRequest) :
    PackingContext where
  reader := reader
  now := request.now reader
  query := request.query
  budgetTokens := request.budgetTokens.toNat
  conflicts := store.ledger.openConflictSets request.scope
  contestedRow := contestedRow store.ledger (store.ledger.openConflictSets request.scope)
    ((factRows reader request store.ledger).map (·.fact.id))

/-- A call packs the rows it has retrieved. -/
theorem packedContext_under (reader : Reader) (keys : RowKeys) (store : Store)
    (request : ContextRequest) :
    packedContext (reader.under keys) store request =
      (packingContext (reader.under keys) store request).packRows keys
        (gatedRows (reader.under keys) store request).2
        (retrievedRows (reader.under keys) store request) := rfl

/-! ## What is printed -/

/-- An item without the keys of its row and of its events. -/
def PacketFact.content (item : PacketFact) : PacketFact :=
  { item with id := ⟨0, 0⟩, sourceEventIds := [] }

/-- An episode without the keys of its row and of its event. -/
def PacketEpisode.content (item : PacketEpisode) : PacketEpisode :=
  { item with eventId := 0, episodeId := ⟨0, 0⟩ }

/-- What is packed, in order, apart from the keys. -/
def Packing.contents (p : Packing) : List (Printed PacketFact) × List (Printed PacketEpisode) :=
  (p.facts.map fun f ↦ ⟨f.item.content, f.line⟩, p.episodes.map fun e ↦ ⟨e.item.content, e.line⟩)

/-- What is packed of a set of rows depends neither on the order of the rows nor on their keys. -/
def KeyFree (c : PackingContext) (rows : List PoolRow) : Prop :=
  ∀ keys keys' decisions decisions', ∀ rows' : List PoolRow, rows'.Perm rows →
    (c.packRows keys' decisions' rows').contents = (c.packRows keys decisions rows).contents

/-- A row as it is printed; a contested one has its key, which its siblings are packed after. -/
inductive Shape where
  | contested (row : Fact)
  | fact (item : PacketFact)
  | episode (item : PacketEpisode)

/-- The shape of a row. -/
def PoolRow.shape (c : PackingContext) : PoolRow → Shape
  | .fact row =>
    if (contestedConflict c.conflicts row.fact.id).isSome then .contested row.fact
    else .fact (packetFact c.reader c.now "" row.fact none).content
  | .episode row => .episode (packetEpisode c.reader c.now "" row).content

/-- Two rows that tie in relevance, recency and content have one shape. -/
def TiesAlike (c : PackingContext) (rows : List PoolRow) : Prop :=
  ∀ a ∈ c.survivors rows, ∀ b ∈ c.survivors rows,
    (rankedIn c.reader c.query (c.survivors rows) a).key =
      (rankedIn c.reader c.query (c.survivors rows) b).key → a.shape c = b.shape c

section

variable {c : PackingContext} {keys keys' : RowKeys} {rows rows' : List PoolRow}

/-! ## Ranking -/

/-- The document a row of some shape is reranked as. -/
def Shape.document : Shape → String
  | .contested row => row.predicate ++ " " ++ row.value.dumps .default
  | .fact item => item.predicate ++ " " ++ item.value.dumps .default
  | .episode item => item.excerpt

theorem PoolRow.document_shape (c : PackingContext) (row : PoolRow) :
    (row.shape c).document = row.document := by
  cases row with
  | fact row =>
    rw [shape]
    split
    · rfl
    · rfl
  | episode row => rfl

/-- The score and the shape of a row. -/
def Ranked.face (c : PackingContext) (a : Ranked) : ℚ × Shape := (a.score, a.row.shape c)

/-- Reranking in terms of scores and shapes. -/
def rerankFaces (reader : Reader) (query : String) (faces : List (ℚ × Shape)) :
    List (ℚ × Shape) :=
  match reader.rerank with
  | none => faces
  | some rerank =>
    let head := faces.take rerankTopK
    let scores := rerank query (head.map (·.2.document))
    sortedBy (fun a b ↦ compare b.1 a.1) (List.zipWith (fun score face ↦ (score, face.2)) scores head)
      ++ faces.drop rerankTopK

theorem map_face_rerankPool (reader : Reader) (query : String) (pool : List Ranked) :
    (rerankPool reader query pool).map (Ranked.face c) =
      rerankFaces reader query (pool.map (Ranked.face c)) := by
  rw [rerankPool, rerankFaces]
  cases reader.rerank with
  | none => rfl
  | some rerank =>
    have hdocuments : ((pool.map (Ranked.face c)).take rerankTopK).map (·.2.document) =
        (pool.take rerankTopK).map (·.row.document) := by
      rw [← List.map_take, List.map_map]
      exact List.map_congr_left fun a _ ↦ a.row.document_shape c
    have hsort (l : List Ranked) : (sortedBy (fun a b ↦ compare b.score a.score) l).map
        (Ranked.face c) = sortedBy (fun a b ↦ compare b.1 a.1) (l.map (Ranked.face c)) :=
      List.map_insertionSort (fun a b : Ranked ↦ (compare b.score a.score).isLE)
        (fun a b : ℚ × Shape ↦ (compare b.1 a.1).isLE) (Ranked.face c) l fun _ _ _ _ ↦ Iff.rfl
    dsimp only
    rw [List.map_append, List.map_drop, hdocuments, hsort, List.map_zipWith, ← List.map_take,
      List.zipWith_map_right]
    rfl

/-- The sort key of the pool. -/
def rowKey (reader : Reader) (a : Ranked) : (ℚᵒᵈ ×ₗ ℚᵒᵈ ×ₗ ℤ ×ₗ String) ×ₗ String :=
  toLex (a.key, a.row.strId reader)

namespace PackingContext

/-- The rows that pass the recall gate, as they are ranked. -/
def ranked (c : PackingContext) (rows : List PoolRow) : List Ranked :=
  (c.survivors rows).map (rankedIn c.reader c.query (c.survivors rows))

theorem pool_eq (c : PackingContext) (keys : RowKeys) (rows : List PoolRow) :
    c.pool keys rows = rerankPool (c.reader.under keys) c.query
      (ascending (rowKey (c.reader.under keys)) (c.ranked rows)) := by
  rw [pool, rankPool_eq]
  rfl

/-- The order of the rows does not bear on how they are ranked. -/
theorem ranked_perm (c : PackingContext) (h : rows'.Perm rows) :
    (c.ranked rows').Perm (c.ranked rows) := by
  have hsurvivors : (c.survivors rows').Perm (c.survivors rows) := h.filter _
  have hranked : rankedIn c.reader c.query (c.survivors rows') =
      rankedIn c.reader c.query (c.survivors rows) := by
    funext row
    rw [rankedIn, rankedIn, scoreIn_congr hsurvivors]
  rw [ranked, ranked, hranked]
  exact hsurvivors.map _

end PackingContext

/-- The pools of one set of rows show the same faces under any keys. -/
theorem map_face_pool (h : TiesAlike c rows) (hperm : rows'.Perm rows) :
    (c.pool keys' rows').map (Ranked.face c) = (c.pool keys rows).map (Ranked.face c) := by
  have hranked := c.ranked_perm hperm
  have hkeys : (ascending (rowKey (c.reader.under keys')) (c.ranked rows')).map Ranked.key =
      (ascending (rowKey (c.reader.under keys)) (c.ranked rows)).map Ranked.key :=
    map_ascending_toLex Ranked.key _ _ hranked
  have hfaces := map_congr_of_map_eq (Ranked.face c) hkeys fun a ha b hb hab ↦ by
    obtain ⟨rowA, hrowA, rfl⟩ := List.mem_map.mp (hranked.mem_iff.mp (mem_ascending.mp ha))
    obtain ⟨rowB, hrowB, rfl⟩ := List.mem_map.mp (mem_ascending.mp hb)
    have hscore := congrArg Prod.fst (toLex.injective hab)
    exact Prod.ext (OrderDual.toDual.injective hscore) (h rowA hrowA rowB hrowB hab)
  rw [c.pool_eq, c.pool_eq, map_face_rerankPool, map_face_rerankPool, hfaces]
  rfl

/-! ## Packing -/

/-- A printed fact without the keys. -/
def Printed.content (printed : Printed PacketFact) : Printed PacketFact :=
  ⟨printed.item.content, printed.line⟩

/-- Two packets under way that differ in keys only. -/
structure Packing.Similar (c : PackingContext) (p p' : Packing) : Prop where
  contents : p.contents = p'.contents
  packed : ∀ id, (contestedConflict c.conflicts id).isSome →
    (id ∈ p.packedFactIds ↔ id ∈ p'.packedFactIds)
  tokenCount : p.tokenCount = p'.tokenCount
  episodeTokenCount : p.episodeTokenCount = p'.episodeTokenCount
  episodesPacked : p.episodesPacked = p'.episodesPacked

/-- The members of a set that is shown are contested. -/
theorem contestedConflict_isSome {conflicts : List ConflictSet} {id other : FactId}
    {conflict : ConflictSet} (h : contestedConflict conflicts id = some conflict)
    (hother : other ∈ conflict.factIds) : (contestedConflict conflicts other).isSome :=
  List.find?_isSome.mpr ⟨conflict, List.mem_of_find?_eq_some h, decide_eq_true hother⟩

namespace Packing.Similar

variable {p p' : Packing}

theorem length_facts (h : p.Similar c p') : p.facts.length = p'.facts.length := by
  have := congrArg (fun contents ↦ contents.1.length) h.contents
  simpa [Packing.contents] using this

theorem length_episodes (h : p.Similar c p') : p.episodes.length = p'.episodes.length := by
  have := congrArg (fun contents ↦ contents.2.length) h.contents
  simpa [Packing.contents] using this

theorem note (h : p.Similar c p') (i i' : ItemId) (action : DecisionAction)
    (reasonCode : ReasonCode) :
    (p.note i action reasonCode).Similar c (p'.note i' action reasonCode) :=
  ⟨h.contents, h.packed, h.tokenCount, h.episodeTokenCount, h.episodesPacked⟩

theorem chargeContested (h : p.Similar c p') : p.chargeContested.Similar c p'.chargeContested :=
  ⟨h.contents, h.packed, h.tokenCount, h.episodeTokenCount, h.episodesPacked⟩

/-- Two facts that are printed the same enter the packets. -/
theorem addFact {printed printed' : Printed PacketFact} (h : p.Similar c p')
    (hprinted : printed.content = printed'.content)
    (hpacked : printed.item.id = printed'.item.id ∨
      contestedConflict c.conflicts printed.item.id = none ∧
        contestedConflict c.conflicts printed'.item.id = none) (reasonCode : ReasonCode) :
    (p.addFact printed reasonCode).Similar c (p'.addFact printed' reasonCode) := by
  have hline : printed.line = printed'.line := (Printed.mk.inj hprinted).2
  refine ⟨?_, fun id hid ↦ ?_, ?_, h.episodeTokenCount, h.episodesPacked⟩
  · have hcontents := h.contents
    simp only [Packing.contents, Prod.mk.injEq] at hcontents
    simp only [Packing.contents, Packing.addFact, List.map_append, List.map_cons, List.map_nil,
      hcontents.1, hcontents.2, Prod.mk.injEq, and_true]
    exact congrArg (_ ++ [·]) hprinted
  · simp only [Packing.addFact, List.mem_append, List.mem_singleton, h.packed id hid]
    rcases hpacked with heq | ⟨hnone, hnone'⟩
    · rw [heq]
    · have hne : id ≠ printed.item.id := fun heq ↦ by simp [heq, hnone] at hid
      have hne' : id ≠ printed'.item.id := fun heq ↦ by simp [heq, hnone'] at hid
      simp [hne, hne']
  · exact congrArg₂ (· + estimateTokens ·) h.tokenCount hline

/-- One sibling of a contested fact: it is contested itself. -/
theorem packSibling {conflict : ConflictSet} {siblingId : FactId} (h : p.Similar c p')
    (keys : RowKeys) (hcontested : (contestedConflict c.conflicts siblingId).isSome) :
    (p.packSibling (c.call keys) conflict siblingId).Similar c
      (p'.packSibling (c.call keys) conflict siblingId) := by
  have hmem := h.packed siblingId hcontested
  rw [Packing.packSibling, Packing.packSibling]
  by_cases hpacked : siblingId ∈ p.packedFactIds
  · rwa [if_pos hpacked, if_pos (hmem.mp hpacked)]
  · rw [if_neg hpacked, if_neg (hmem.not.mp hpacked)]
    split
    · exact h
    · next sibling hsibling =>
      split
      · exact h.note _ _ _ _
      · have hprinted : p.printFact (c.call keys) sibling (some conflict) =
            p'.printFact (c.call keys) sibling (some conflict) := by
          rw [Packing.printFact, Packing.printFact, h.length_facts]
        dsimp only
        rw [hprinted, h.tokenCount]
        split
        · exact h.note _ _ _ _
        · exact h.addFact rfl (.inl rfl) _

theorem packSiblings {conflict : ConflictSet} {siblingIds : List FactId} (h : p.Similar c p')
    (keys : RowKeys)
    (hcontested : ∀ id ∈ siblingIds, (contestedConflict c.conflicts id).isSome) :
    (siblingIds.foldl (Packing.packSibling (c.call keys) conflict) p).Similar c
      (siblingIds.foldl (Packing.packSibling (c.call keys) conflict) p') := by
  induction siblingIds generalizing p p' with
  | nil => exact h
  | cons id ids ih =>
    obtain ⟨hid, hids⟩ := List.forall_mem_cons.mp hcontested
    rw [List.foldl_cons, List.foldl_cons]
    exact ih (h.packSibling keys hid) hids

/-- A contested fact is packed with the siblings that are not packed yet. -/
theorem packFact_contested (h : p.Similar c p') (keys : RowKeys) {row : Fact} {conflict : ConflictSet}
    (hconflict : contestedConflict c.conflicts row.id = some conflict) :
    (p.packFact (c.call keys) row).Similar c (p'.packFact (c.call keys) row) := by
  have hcall : (c.call keys).contestedConflict row.id = some conflict := hconflict
  have hprinted : p.printFact (c.call keys) row (some conflict) =
      p'.printFact (c.call keys) row (some conflict) := by
    rw [Packing.printFact, Packing.printFact, h.length_facts]
  rw [Packing.packFact, Packing.packFact]
  simp only [hcall, hprinted, h.tokenCount]
  split
  · exact h.note _ _ _ _
  · refine packSiblings ?_ keys fun id hid ↦ contestedConflict_isSome hconflict hid
    exact (h.addFact rfl (.inl rfl) .conflictDisputed).chargeContested

/-- Two facts that are not contested and printed the same. -/
theorem packFact_undisputed (h : p.Similar c p') (keys : RowKeys) {row row' : Fact}
    (hnone : contestedConflict c.conflicts row.id = none)
    (hnone' : contestedConflict c.conflicts row'.id = none)
    (hitem : (packetFact c.reader c.now "" row none).content =
      (packetFact c.reader c.now "" row' none).content) :
    (p.packFact (c.call keys) row).Similar c (p'.packFact (c.call keys) row') := by
  have hcall : (c.call keys).contestedConflict row.id = none := hnone
  have hcall' : (c.call keys).contestedConflict row'.id = none := hnone'
  -- the reference is the number of the item, and the line does not contain the key
  have hprinted : (p.printFact (c.call keys) row none).content =
      (p'.printFact (c.call keys) row' none).content := by
    let print (n : ℕ) (item : PacketFact) : Printed PacketFact :=
      ⟨{ item with ref := "F" ++ toString (n + 1) },
        c.reader.renderFact { item with ref := "F" ++ toString (n + 1) }⟩
    exact congrArg₂ print h.length_facts hitem
  have hline : (p.printFact (c.call keys) row none).line =
      (p'.printFact (c.call keys) row' none).line :=
    (Printed.mk.inj hprinted).2
  rw [Packing.packFact, Packing.packFact]
  simp only [hcall, hcall', hline, h.tokenCount]
  split
  · exact h.note _ _ _ _
  · exact h.addFact hprinted (.inr ⟨hnone, hnone'⟩) _

/-- Two episodes that are printed the same. -/
theorem packEpisode (h : p.Similar c p') (keys : RowKeys) {row row' : EpisodeRow}
    (hitem : (packetEpisode c.reader c.now "" row).content =
      (packetEpisode c.reader c.now "" row').content) :
    (p.packEpisode (c.call keys) row).Similar c (p'.packEpisode (c.call keys) row') := by
  let content (printed : Printed PacketEpisode) : Printed PacketEpisode :=
    ⟨printed.item.content, printed.line⟩
  have hprinted : content (p.printEpisode (c.call keys) row) =
      content (p'.printEpisode (c.call keys) row') := by
    let print (n : ℕ) (item : PacketEpisode) : Printed PacketEpisode :=
      ⟨{ item with ref := "E" ++ toString (n + 1) },
        renderEpisode { item with ref := "E" ++ toString (n + 1) }⟩
    exact congrArg₂ print h.length_episodes hitem
  have hline : (p.printEpisode (c.call keys) row).line =
      (p'.printEpisode (c.call keys) row').line :=
    (Printed.mk.inj hprinted).2
  rw [Packing.packEpisode, Packing.packEpisode]
  simp only [hline, h.tokenCount, h.episodeTokenCount, h.episodesPacked]
  split
  · exact h.note _ _ _ _
  · split
    · exact h.note _ _ _ _
    · refine ⟨?_, h.packed, rfl, rfl, rfl⟩
      have hcontents := h.contents
      simp only [Packing.contents, Prod.mk.injEq] at hcontents
      simp only [Packing.contents, List.map_append, List.map_cons, List.map_nil, hcontents.1,
        hcontents.2, Prod.mk.injEq, true_and]
      exact congrArg (_ ++ [·]) hprinted

/-- One row of the pool, up to its shape. -/
theorem packRow {row row' : PoolRow} (h : p.Similar c p') (keys : RowKeys)
    (hshape : row.shape c = row'.shape c) :
    (p.packRow (c.call keys) row).Similar c (p'.packRow (c.call keys) row') := by
  cases row with
  | fact row =>
    cases row' with
    | fact row' =>
      simp only [PoolRow.shape] at hshape
      split at hshape <;> split at hshape
      · next hsome _ =>
        obtain ⟨conflict, hconflict⟩ := Option.isSome_iff_exists.mp hsome
        have hfact : row.fact = row'.fact := Shape.contested.inj hshape
        rw [Packing.packRow, Packing.packRow, ← hfact]
        exact h.packFact_contested keys hconflict
      · cases hshape
      · cases hshape
      · next hnone hnone' =>
        exact h.packFact_undisputed keys (Option.not_isSome_iff_eq_none.mp hnone)
          (Option.not_isSome_iff_eq_none.mp hnone') (Shape.fact.inj hshape)
    | episode row' =>
      simp only [PoolRow.shape] at hshape
      split at hshape <;> cases hshape
  | episode row =>
    cases row' with
    | fact row' =>
      simp only [PoolRow.shape] at hshape
      split at hshape <;> cases hshape
    | episode row' => exact h.packEpisode keys (Shape.episode.inj hshape)

end Packing.Similar

/-- Rows of the same shapes are packed the same. -/
theorem foldl_packRow {rows rows' : List PoolRow} {p p' : Packing} (h : p.Similar c p')
    (keys : RowKeys) (hshapes : rows.map (PoolRow.shape c) = rows'.map (PoolRow.shape c)) :
    (rows.foldl (Packing.packRow (c.call keys)) p).Similar c
      (rows'.foldl (Packing.packRow (c.call keys)) p') := by
  induction rows generalizing rows' p p' with
  | nil =>
    rw [List.map_eq_nil_iff.mp hshapes.symm]
    exact h
  | cons row rows ih =>
    obtain ⟨row', rest, rfl, hrow, hrest⟩ := List.map_eq_cons_iff.mp hshapes.symm
    rw [List.foldl_cons, List.foldl_cons]
    exact ih (h.packRow keys hrow.symm) hrest.symm

/-- **Packing does not depend on what the database drew** when rows that tie have one shape: neither
the order in which it returned the rows nor their primary keys. -/
theorem packRows_keyFree (h : TiesAlike c rows) : KeyFree c rows := by
  intro keys keys' decisions decisions' rows' hperm
  have hfaces : (c.pool keys' rows').map (Ranked.face c) = (c.pool keys rows).map (Ranked.face c) :=
    map_face_pool h hperm
  have hshapes : ((c.pool keys' rows').map Ranked.row).map (PoolRow.shape c) =
      ((c.pool keys rows).map Ranked.row).map (PoolRow.shape c) := by
    have := congrArg (List.map Prod.snd) hfaces
    rwa [List.map_map, List.map_map] at this ⊢
  have hstart : ({ decisions := decisions' } : Packing).Similar c { decisions := decisions } :=
    ⟨rfl, fun _ _ ↦ Iff.rfl, rfl, rfl, rfl⟩
  exact (foldl_packRow hstart keys hshapes).contents

/-! ## The order of the rows -/

theorem PoolRow.strId_under (reader : Reader) (keys : RowKeys) (row : PoolRow) :
    row.strId (reader.under keys) = keys.str row.id := by
  cases row <;> rfl

/-- **The order in which the rows were returned** does not bear on the packet: rows of different
keys are packed the same. -/
theorem packRows_perm (hnodup : (rows.map PoolRow.id).Nodup) (hperm : rows'.Perm rows)
    (decisions : List Decision) :
    c.packRows keys decisions rows' = c.packRows keys decisions rows := by
  have hkey (a : Ranked) (ha : a ∈ c.ranked rows) (b : Ranked) (hb : b ∈ c.ranked rows)
      (hab : rowKey (c.reader.under keys) a = rowKey (c.reader.under keys) b) : a = b := by
    obtain ⟨rowA, hrowA, rfl⟩ := List.mem_map.mp ha
    obtain ⟨rowB, hrowB, rfl⟩ := List.mem_map.mp hb
    have hid := congrArg Prod.snd (toLex.injective hab)
    have hstr : keys.str rowA.id = keys.str rowB.id := by
      rw [← PoolRow.strId_under c.reader, ← PoolRow.strId_under c.reader]
      exact hid
    obtain rfl : rowA = rowB := List.inj_on_of_nodup_map hnodup
      (List.mem_filter.mp hrowA).1 (List.mem_filter.mp hrowB).1 (keys.injective hstr)
    rfl
  rw [PackingContext.packRows, PackingContext.packRows, c.pool_eq, c.pool_eq,
    ascending_congr (fun a ha b hb ↦ ?_) (c.ranked_perm hperm)]
  exact hkey a ((c.ranked_perm hperm).mem_iff.mp ha) b ((c.ranked_perm hperm).mem_iff.mp hb)

end

/-! ## A sample -/

namespace Sample

/-- A call without conflicts. -/
def undisputed : PackingContext where
  reader := .sample
  now := 0
  query := request.query
  budgetTokens := 3000
  conflicts := []
  contestedRow := fun _ ↦ none

/-- The same fact, born from two events. -/
def twins : List PoolRow :=
  [.fact ⟨born 1, ⟨some 0, 1, 0, 0⟩⟩, .fact ⟨born 2, ⟨some 0, 1, 0, 0⟩⟩]

/-- A key as long as it is late. -/
def rowKey : ItemId → String
  | .fact id => String.ofList (List.replicate (2 * Nat.pair id.event id.ordinal) 'k')
  | .episode id => String.ofList (List.replicate (2 * Nat.pair id.event id.ordinal + 1) 'k')

theorem rowKey_injective : Function.Injective rowKey := by
  have hlength {m n : ℕ} (h : String.ofList (List.replicate m 'k') =
      String.ofList (List.replicate n 'k')) : m = n := by
    have := congrArg List.length (String.ofList_injective h)
    rwa [List.length_replicate, List.length_replicate] at this
  rintro (⟨e, o⟩ | ⟨e, o⟩) (⟨e', o'⟩ | ⟨e', o'⟩) h
  · obtain ⟨rfl, rfl⟩ := Nat.pair_eq_pair.mp (Nat.eq_of_mul_eq_mul_left Nat.two_pos (hlength h))
    rfl
  · exact absurd (hlength h) (by omega)
  · exact absurd (hlength h) (by omega)
  · obtain ⟨rfl, rfl⟩ := Nat.pair_eq_pair.mp
      (Nat.eq_of_mul_eq_mul_left Nat.two_pos (Nat.succ_injective (hlength h)))
    rfl

/-- These keys. -/
def rowKeys : RowKeys where
  str := rowKey
  injective := rowKey_injective

end Sample

theorem packRows_keyFree_twins : KeyFree Sample.undisputed Sample.twins := by
  have hshape : ∀ a ∈ Sample.twins, a.shape Sample.undisputed =
      .fact (packetFact .sample 0 "" (Sample.born 1) none).content := by
    simp only [Sample.twins, List.forall_mem_cons]
    exact ⟨rfl, rfl, fun _ h ↦ absurd h List.not_mem_nil⟩
  refine packRows_keyFree fun a ha b hb _ ↦ ?_
  rw [hshape a (List.mem_filter.mp ha).1, hshape b (List.mem_filter.mp hb).1]

theorem packRows_perm_twins :
    Sample.undisputed.packRows Sample.rowKeys [] Sample.twins.reverse =
      Sample.undisputed.packRows Sample.rowKeys [] Sample.twins :=
  packRows_perm (by simp [Sample.twins, PoolRow.id, Sample.born]) (List.reverse_perm _) []

end Haki
