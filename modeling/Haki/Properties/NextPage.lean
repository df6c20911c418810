import Haki.Context.Servable
import Haki.Sample
import Haki.Sdk.Runtime

/-!
# The next page

A call leaves out what its caller has seen, except for the siblings of the
contested facts it serves.  So pages are disjoint as long as no such sibling
was seen, and there are finitely many of them in any case: a page with an item
has one that passed candidate generation.
-/

namespace Haki

open Data

/-! ## Exclusion -/

/-- No item of the packet is one of these. -/
def ContextPacket.Avoids (packet : ContextPacket) (ids : List ItemId) : Prop :=
  ∀ id ∈ packet.ids, id ∉ ids

section

variable {reader : Reader} {store : Store} {request : ContextRequest} {built : BuiltContext}

theorem mem_ids_fact {packet : ContextPacket} {id : FactId} :
    .fact id ∈ packet.ids ↔ ∃ printed ∈ packet.facts, printed.item.id = id := by
  simp [ContextPacket.ids]

theorem mem_ids_episode {packet : ContextPacket} {id : ChunkId} :
    .episode id ∈ packet.ids ↔ ∃ printed ∈ packet.episodes, printed.item.episodeId = id := by
  simp [ContextPacket.ids]

/-- Every row that passes the gate was not excluded. -/
theorem gated_not_excluded {row : PoolRow} (h : row ∈ (gatedRows reader store request).1) :
    row.id ∉ request.excluded := by
  cases row with
  | fact row => exact (mem_factRows (mem_gatedRows h).1).2.2.2
  | episode row => exact (mem_gatedRows_episode h).2.2.2.2.2

/-- The episodes of a packet were not excluded. -/
theorem episodes_not_excluded (hbuilt : buildContext reader store request = .ok built)
    {printed : Printed PacketEpisode} (h : printed ∈ built.packet.episodes) :
    .episode printed.item.episodeId ∉ request.excluded := by
  obtain ⟨row, ref, hrow, hitem⟩ := episode_of_mem hbuilt h
  rw [hitem]
  exact gated_not_excluded hrow

/-- No budget makes a call serve an excluded item exactly when no fact that passes the gate is
contested with an excluded one. -/
theorem packet_avoids_iff (haligned : reader.RerankAligned) (store : Store)
    (request : ContextRequest) :
    (∀ budgetTokens built, buildContext reader store (request.withBudget budgetTokens) = .ok built →
      built.packet.Avoids request.excluded) ↔
    ∀ f, Sibling reader store request f → .fact f.id ∉ request.excluded := by
  have hranked (row : FactRow) (hrow : .fact row ∈ (gatedRows reader store request).1) :
      .fact row.fact.id ∉ request.excluded := by
    have hnot := gated_not_excluded hrow
    exact hnot
  rw [← forall_packets_iff (Q := fun f ↦ .fact f.id ∉ request.excluded) haligned hranked]
  constructor
  · intro h budgetTokens built hbuilt printed hprinted f hf hid
    exact h budgetTokens built hbuilt _ (mem_ids_fact.mpr ⟨printed, hprinted, hid.symm⟩)
  · intro h budgetTokens built hbuilt id hid
    cases id with
    | fact id =>
      obtain ⟨printed, hprinted, rfl⟩ := mem_ids_fact.mp hid
      obtain ⟨f, ref, conflict, hf, hitem⟩ := servable_of_mem hbuilt hprinted
      have hsame : f.id = printed.item.id := by
        rw [hitem]
        rfl
      rw [← hsame]
      exact h budgetTokens built hbuilt printed hprinted f hf.mem hsame
    | episode id =>
      obtain ⟨printed, hprinted, rfl⟩ := mem_ids_episode.mp hid
      have hnot := episodes_not_excluded hbuilt hprinted
      exact hnot

/-! ## Pages -/

/-- The call for the page after these ones: the same, without what they gave. -/
def ContextRequest.after (request : ContextRequest) (pages : List BuiltContext) : ContextRequest :=
  { request with excludeIds := (seen (pages.map BuiltContext.packet)).map some }

/-- Pages obtained one after the other. -/
inductive Pages (reader : Reader) (store : Store) (request : ContextRequest) :
    List BuiltContext → Prop where
  | nil : Pages reader store request []
  | next {pages : List BuiltContext} {built : BuiltContext} (h : Pages reader store request pages)
      (hbuilt : buildContext reader store (request.after pages) = .ok built) :
      Pages reader store request (pages ++ [built])

theorem excluded_after (request : ContextRequest) (pages : List BuiltContext) :
    (request.after pages).excluded = seen (pages.map BuiltContext.packet) := by
  simp [ContextRequest.excluded, ContextRequest.after, List.filterMap_map]

theorem mem_seen {pages : List BuiltContext} {id : ItemId} :
    id ∈ seen (pages.map BuiltContext.packet) ↔ ∃ page ∈ pages, id ∈ page.packet.ids := by
  simp [seen]

/-- Whenever a page is asked for, no fact that passes the gate is contested with one that was seen. -/
def PagesMeet (reader : Reader) (store : Store) (request : ContextRequest)
    (pages : List BuiltContext) : Prop :=
  ∀ before built, before ++ [built] <+: pages → ∀ f, Sibling reader store (request.after before) f →
    .fact f.id ∉ (request.after before).excluded

/-- Pages that meet the condition are disjoint. -/
theorem pages_disjoint (haligned : reader.RerankAligned) {pages : List BuiltContext}
    (h : Pages reader store request pages) (hmeet : PagesMeet reader store request pages) :
    pages.Pairwise fun page other ↦ ∀ id ∈ page.packet.ids, id ∉ other.packet.ids := by
  induction h with
  | nil => exact .nil
  | @next pages built hpages hbuilt ih =>
    have hbefore : PagesMeet reader store request pages := fun before page hbefore ↦
      hmeet before page (hbefore.trans (List.prefix_append _ _))
    have havoids : built.packet.Avoids (request.after pages).excluded :=
      (packet_avoids_iff haligned store (request.after pages)).mpr
        (hmeet pages built (List.prefix_refl _)) request.budgetTokens built hbuilt
    refine List.pairwise_append.mpr ⟨ih hbefore, List.pairwise_singleton _ _, ?_⟩
    intro page hpage other hother id hid hid'
    rw [List.mem_singleton.mp hother] at hid'
    have hnot := havoids id hid'
    rw [excluded_after, mem_seen] at hnot
    exact hnot ⟨page, hpage, hid⟩

/-- A page with an item has one that passed candidate generation. -/
theorem exists_gated_of_ids_ne_nil (hbuilt : buildContext reader store request = .ok built)
    (h : built.packet.ids ≠ []) :
    ∃ row ∈ (gatedRows reader store request).1, row.id ∈ built.packet.ids := by
  obtain ⟨id, hid⟩ := List.exists_mem_of_ne_nil _ h
  cases id with
  | episode id =>
    obtain ⟨printed, hprinted, rfl⟩ := mem_ids_episode.mp hid
    obtain ⟨row, ref, hrow, hitem⟩ := episode_of_mem hbuilt hprinted
    refine ⟨.episode row, hrow, mem_ids_episode.mpr ⟨printed, hprinted, ?_⟩⟩
    rw [hitem]
    rfl
  | fact id =>
    obtain ⟨printed, hprinted, rfl⟩ := mem_ids_fact.mp hid
    obtain ⟨-, pool, hpool, packed, rfl, rfl⟩ := buildContext_eq_ok hbuilt
    have hrows {row : PoolRow} (hrow : row ∈ pool.map Ranked.row) :
        row ∈ (gatedRows reader store request).1 := by
      obtain ⟨a, ha, rfl⟩ := List.mem_map.mp hrow
      exact hpool a ha
    cases (pack_sourced (packingCall reader store request) (gatedRows reader store request).2
      pool).facts printed hprinted with
    | row ref row mem eq =>
      refine ⟨.fact row, hrows mem, mem_ids_fact.mpr ⟨printed, hprinted, ?_⟩⟩
      rw [eq]
      rfl
    | sibling ref row conflict siblingId sibling mem packed =>
      obtain ⟨other, hother, heq⟩ := List.mem_map.mp packed
      exact ⟨.fact row, hrows mem, mem_ids_fact.mpr ⟨other, hother, heq⟩⟩

/-- The ids of all facts and chunks. -/
def Store.itemIds (store : Store) : List ItemId :=
  store.ledger.facts.rows.map (fun f ↦ .fact f.id) ++
    store.episodeChunks.rows.map fun c ↦ .episode c.id

theorem mem_itemIds_of_gated {row : PoolRow} (h : row ∈ (gatedRows reader store request).1) :
    row.id ∈ store.itemIds := by
  cases row with
  | fact row =>
    exact List.mem_append_left _ (List.mem_map_of_mem (mem_factRows (mem_gatedRows h).1).1)
  | episode row => exact List.mem_append_right _ (List.mem_map_of_mem (mem_gatedRows_episode h).1)

/-- Every page with an item gives an id that no page before it gave. -/
theorem exists_new_ids {pages : List BuiltContext} (h : Pages reader store request pages)
    (hitems : ∀ page ∈ pages, page.packet.ids ≠ []) :
    ∃ ids : List ItemId, ids.length = pages.length ∧ ids.Nodup ∧ ids ⊆ store.itemIds ∧
      ids ⊆ seen (pages.map BuiltContext.packet) := by
  induction h with
  | nil => exact ⟨[], rfl, List.nodup_nil, List.nil_subset _, List.nil_subset _⟩
  | @next pages built hpages hbuilt ih =>
    obtain ⟨ids, hlength, hnodup, hstore, hseen⟩ :=
      ih fun page hpage ↦ hitems page (List.mem_append_left _ hpage)
    obtain ⟨row, hrow, hid⟩ := exists_gated_of_ids_ne_nil hbuilt
      (hitems built (List.mem_append_right _ (List.mem_singleton_self _)))
    have hnew : row.id ∉ ids := by
      have hnot := gated_not_excluded hrow
      rw [excluded_after] at hnot
      exact fun hmem ↦ hnot (hseen hmem)
    refine ⟨row.id :: ids, ?_, hnodup.cons hnew, ?_, ?_⟩
    · rw [List.length_cons, List.length_append, hlength, List.length_singleton]
    · exact List.cons_subset.mpr ⟨mem_itemIds_of_gated hrow, hstore⟩
    · intro other hother
      rw [mem_seen]
      rcases List.mem_cons.mp hother with rfl | hother
      · exact ⟨built, List.mem_append_right _ (List.mem_singleton_self _), hid⟩
      · obtain ⟨page, hpage, hmem⟩ := mem_seen.mp (hseen hother)
        exact ⟨page, List.mem_append_left _ hpage, hmem⟩

/-- **The next page.**  No budget makes a call serve an excluded item exactly when no fact that
passes the gate is contested with an excluded one; pages whose calls all meet this are disjoint; and
there are never more pages with an item than facts and chunks. -/
theorem next_page (haligned : reader.RerankAligned) (store : Store) (request : ContextRequest) :
    ((∀ budgetTokens built,
        buildContext reader store (request.withBudget budgetTokens) = .ok built →
        built.packet.Avoids request.excluded) ↔
      ∀ f, Sibling reader store request f → .fact f.id ∉ request.excluded) ∧
    (∀ pages, Pages reader store request pages → PagesMeet reader store request pages →
      pages.Pairwise fun page other ↦ ∀ id ∈ page.packet.ids, id ∉ other.packet.ids) ∧
    ∀ pages, Pages reader store request pages → (∀ page ∈ pages, page.packet.ids ≠ []) →
      pages.length ≤ store.ledger.facts.rows.length + store.episodeChunks.rows.length := by
  refine ⟨packet_avoids_iff haligned store request, fun pages ↦ pages_disjoint haligned, ?_⟩
  intro pages h hitems
  obtain ⟨ids, hlength, hnodup, hstore, -⟩ := exists_new_ids h hitems
  calc pages.length = ids.length := hlength.symm
    _ ≤ store.itemIds.length := (List.subperm_of_subset hnodup hstore).length_le
    _ = _ := by rw [Store.itemIds, List.length_append, List.length_map, List.length_map]

end

/-! ## Samples -/

/-- The caller has the second of two contested facts. -/
def Sample.withoutNice : ContextRequest :=
  { Sample.request with excludeIds := [some (.fact ⟨2, 0⟩)] }

/-- The subject lives in Lyon or in Nice, and is a baker. -/
def Sample.baker : Store :=
  store (runOps .sample .empty
    (lyonOrNice ++ observe (event 3 .trusted) [create "job" "baker"]))

/-- The caller has the job. -/
def Sample.withoutBaker : ContextRequest :=
  { Sample.request with excludeIds := [some (.fact ⟨3, 0⟩)] }

theorem not_listed_baker {s : ConflictSet} (hs : s ∈ Sample.baker.ledger.conflictSets) :
    ⟨3, 0⟩ ∉ s.factIds := by
  have hall : ∀ s ∈ Sample.baker.ledger.conflictSets, ⟨3, 0⟩ ∉ s.factIds := by decide +kernel
  exact hall s hs

/-- Only the two cities are contested. -/
theorem contested_baker {id : FactId} {s : ConflictSet}
    (h : contestedConflict (Sample.baker.ledger.openConflictSets Sample.scope) id = some s) :
    id = ⟨1, 0⟩ ∨ id = ⟨2, 0⟩ := by
  have hall : ∀ s ∈ Sample.baker.ledger.conflictSets, ∀ id ∈ s.factIds,
      id = ⟨1, 0⟩ ∨ id = ⟨2, 0⟩ := by decide +kernel
  obtain ⟨hs, -, -, -, hid⟩ := contestedConflict_some h
  exact hall s hs id hid

/-- Once a page gave both, no fact that is left is contested. -/
theorem pagesMeet_baker {budgetTokens : Int} {page other : BuiltContext}
    (hlyon : .fact ⟨1, 0⟩ ∈ page.packet.ids) (hnice : .fact ⟨2, 0⟩ ∈ page.packet.ids) :
    PagesMeet .sample Sample.baker (Sample.request.withBudget budgetTokens) [page, other] := by
  rintro before built ⟨rest, heq⟩ f ⟨row, s, hgated, hs, -⟩
  cases before with
  | nil =>
    rw [excluded_after]
    exact List.not_mem_nil
  | cons first before =>
    obtain rfl : first = page := (List.cons.inj heq).1
    have hnot := gated_not_excluded hgated
    rw [excluded_after, mem_seen] at hnot
    refine absurd ⟨first, List.mem_cons_self, ?_⟩ hnot
    show .fact row.fact.id ∈ first.packet.ids
    rcases contested_baker hs with hid | hid
    · rw [hid]
      exact hlyon
    · rw [hid]
      exact hnice

/-- No call without the job serves it, though it serves two contested facts; and of two pages about
the subject, the second gives none of what the first gave. -/
theorem next_page_baker :
    (∃ f, Sibling .sample Sample.baker Sample.withoutBaker f) ∧
    (∀ budgetTokens built,
      buildContext .sample Sample.baker (Sample.withoutBaker.withBudget budgetTokens) = .ok built →
        built.packet.Avoids Sample.withoutBaker.excluded) ∧
    ∃ budgetTokens page other,
      Pages .sample Sample.baker (Sample.request.withBudget budgetTokens) [page, other] ∧
      .fact ⟨1, 0⟩ ∈ page.packet.ids ∧ .fact ⟨2, 0⟩ ∈ page.packet.ids ∧
      ∀ id ∈ page.packet.ids, id ∉ other.packet.ids := by
  obtain ⟨nice, hrows, hnice, hserved⟩ : ∃ f ∈ Sample.baker.ledger.facts.rows,
      f.id = ⟨2, 0⟩ ∧ f.Served := by decide +kernel
  have hmem : nice ∈ Sample.baker.ledger.facts := Table.mem_rows.mp hrows
  have hcontested : ∃ s ∈ contestedConflict (Sample.baker.ledger.openConflictSets Sample.scope)
      ⟨1, 0⟩, nice.id ∈ s.factIds := by
    rw [hnice]
    decide +kernel
  refine ⟨⟨nice, sibling_of_ids ⟨1, 0⟩ (by decide +kernel) hcontested hmem hserved⟩, ?_, ?_⟩
  · refine (next_page Reader.sample_aligned Sample.baker Sample.withoutBaker).1.mpr ?_
    rintro f ⟨row, s, -, hs, hlisted, -, -⟩ hexcluded
    have hid : .fact f.id = ItemId.fact ⟨3, 0⟩ := List.mem_singleton.mp hexcluded
    rw [ItemId.fact.inj hid] at hlisted
    exact absurd hlisted (not_listed_baker (contestedConflict_some hs).1)
  · obtain ⟨budgetTokens, page, hpos, hpage, hfacts, -⟩ :=
      exists_budget Reader.sample_aligned Sample.baker Sample.request
    have hgiven (f : Fact) (hf : Servable .sample Sample.baker Sample.request f) :
        .fact f.id ∈ page.packet.ids := by
      obtain ⟨printed, hprinted, ref, conflict, hitem⟩ := hfacts f hf
      refine mem_ids_fact.mpr ⟨printed, hprinted, ?_⟩
      rw [hitem]
      rfl
    have hlyonGiven : .fact ⟨1, 0⟩ ∈ page.packet.ids := by
      have hrow : .fact ⟨1, 0⟩ ∈ (gatedRows .sample Sample.baker Sample.request).1.map PoolRow.id := by
        decide +kernel
      obtain ⟨row, hgated, hid⟩ := List.mem_map.mp hrow
      cases row with
      | episode row => cases hid
      | fact row =>
        rw [← ItemId.fact.inj hid]
        exact hgiven row.fact (.ranked row hgated rfl)
    have hniceGiven : .fact ⟨2, 0⟩ ∈ page.packet.ids := hnice ▸ hgiven nice
      (.sibling (sibling_of_ids ⟨1, 0⟩ (by decide +kernel) hcontested hmem hserved))
    obtain ⟨other, hother⟩ : ∃ other, buildContext .sample Sample.baker
        ((Sample.request.withBudget budgetTokens).after [page]) = .ok other :=
      ⟨_, buildContext_eq _ _ _ hpos⟩
    have hpages : Pages .sample Sample.baker (Sample.request.withBudget budgetTokens) [page, other] :=
      .next (.next .nil hpage) hother
    have hpairwise := (next_page Reader.sample_aligned Sample.baker
      (Sample.request.withBudget budgetTokens)).2.1 _ hpages (pagesMeet_baker hlyonGiven hniceGiven)
    exact ⟨budgetTokens, page, other, hpages, hlyonGiven, hniceGiven,
      (List.pairwise_cons.mp hpairwise).1 _ (List.mem_singleton_self _)⟩

/-- The excluded one of two contested facts is served as the sibling of the other. -/
theorem excluded_sibling_served :
    ∃ budgetTokens built,
      buildContext .sample Sample.disputed (Sample.withoutNice.withBudget budgetTokens) = .ok built ∧
      ¬ built.packet.Avoids Sample.withoutNice.excluded := by
  obtain ⟨f, hrows, hid, hserved⟩ : ∃ f ∈ Sample.disputed.ledger.facts.rows,
      f.id = ⟨2, 0⟩ ∧ f.Served := by decide +kernel
  have hf : f ∈ Sample.disputed.ledger.facts := Table.mem_rows.mp hrows
  have hsibling : Sibling .sample Sample.disputed Sample.withoutNice f :=
    sibling_of_ids ⟨1, 0⟩ (by decide +kernel) (by rw [hid]; decide +kernel) hf hserved
  obtain ⟨budgetTokens, built, -, hbuilt, hfacts, -⟩ :=
    exists_budget Reader.sample_aligned Sample.disputed Sample.withoutNice
  obtain ⟨printed, hprinted, ref, conflict, hitem⟩ := hfacts f (.sibling hsibling)
  have hmem : .fact ⟨2, 0⟩ ∈ built.packet.ids := by
    refine mem_ids_fact.mpr ⟨printed, hprinted, ?_⟩
    rw [hitem, ← hid]
    rfl
  exact ⟨budgetTokens, built, hbuilt, fun havoids ↦ havoids _ hmem (by decide)⟩

end Haki
