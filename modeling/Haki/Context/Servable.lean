import Haki.Context.Decided
import Mathlib.Order.Filter.AtTopBot.Basic

/-!
# What a call can serve

With the budget left open, a call serves the rows that pass the gate and the
siblings of the facts among them: what is in a packet is one of these, and a
budget that is large enough excludes none of them.
-/

namespace Haki

open Data Filter

/-! ## Budgets -/

/-- The same call under another budget. -/
def PackingCall.withBudget (call : PackingCall) (budgetTokens : Nat) : PackingCall :=
  { call with budgetTokens := budgetTokens }

/-- The same request under another budget. -/
def ContextRequest.withBudget (request : ContextRequest) (budgetTokens : Int) : ContextRequest :=
  { request with budgetTokens := budgetTokens }

/-- A fact that can be served. -/
def Fact.Served (f : Fact) : Prop := ¬ (f.status = .disabled ∨ f.status = .deleted)

instance (f : Fact) : Decidable f.Served := inferInstanceAs (Decidable (¬ _))

namespace Packing

variable {call : PackingCall} {p q r : Packing} {s : ConflictSet} {id : FactId}

/-- Nothing leaves the packet. -/
structure Grows (p q : Packing) : Prop where
  facts : p.packedFactIds ⊆ q.packedFactIds
  episodes : p.episodes ⊆ q.episodes

theorem Grows.refl (p : Packing) : Grows p p := ⟨List.Subset.refl _, List.Subset.refl _⟩

theorem Grows.trans (h : Grows p q) (h' : Grows q r) : Grows p r :=
  ⟨List.Subset.trans h.facts h'.facts, List.Subset.trans h.episodes h'.episodes⟩

theorem grows_addFact (p : Packing) (printed : Printed PacketFact) (reason : ReasonCode) :
    Grows p (p.addFact printed reason) :=
  ⟨List.subset_append_left _ _, List.Subset.refl _⟩

/-- The siblings that can be served are in the packet. -/
def IncludesSiblings (call : PackingCall) (p : Packing) (ids : List FactId) : Prop :=
  ∀ id ∈ ids, ∀ f, call.contestedRow id = some f → f.Served → id ∈ p.packedFactIds

/-- The row is in the packet, with the siblings that can be served. -/
def Includes (call : PackingCall) (p : Packing) : PoolRow → Prop
  | .fact row => row.fact.id ∈ p.packedFactIds ∧
      ∀ s, call.contestedConflict row.fact.id = some s → p.IncludesSiblings call s.factIds
  | .episode row => ∃ printed ∈ p.episodes, printed.item.episodeId = row.chunk.id

theorem IncludesSiblings.mono {ids : List FactId} (h : p.IncludesSiblings call ids)
    (hgrows : Grows p q) : q.IncludesSiblings call ids :=
  fun id hid f hf hserved ↦ hgrows.facts (h id hid f hf hserved)

theorem Includes.mono {row : PoolRow} (h : p.Includes call row) (hgrows : Grows p q) :
    q.Includes call row := by
  cases row with
  | fact row => exact ⟨hgrows.facts h.1, fun s hs ↦ (h.2 s hs).mono hgrows⟩
  | episode row =>
    obtain ⟨printed, hmem, hid⟩ := h
    exact ⟨printed, hgrows.episodes hmem, hid⟩

/-- Under a large budget, a sibling that can be served is packed. -/
theorem eventually_packSibling (hkeyed : call.KeyedRows) (s : ConflictSet) (p : Packing)
    (id : FactId) :
    ∃ q, (∀ᶠ b in atTop, p.packSibling (call.withBudget b) s id = q) ∧ Grows p q ∧
      ∀ f, call.contestedRow id = some f → f.Served → id ∈ q.packedFactIds := by
  by_cases hpacked : id ∈ p.packedFactIds
  · exact ⟨p, .of_forall fun b ↦ if_pos hpacked, .refl p, fun _ _ _ ↦ hpacked⟩
  cases hrow : call.contestedRow id with
  | none =>
    refine ⟨p, .of_forall fun b ↦ ?_, .refl p, by rintro _ ⟨⟩⟩
    rw [packSibling, if_neg hpacked]
    simp only [PackingCall.withBudget, hrow]
  | some sibling =>
    by_cases hforgotten : sibling.status = .disabled ∨ sibling.status = .deleted
    · refine ⟨p.note (.fact id) .blocked .forgotten, .of_forall fun b ↦ ?_,
        ⟨List.Subset.refl _, List.Subset.refl _⟩, ?_⟩
      · rw [packSibling, if_neg hpacked]
        simp only [PackingCall.withBudget, hrow, if_pos hforgotten]
      · rintro f ⟨⟩ hserved
        exact absurd hforgotten hserved
    · refine ⟨p.addFact (p.printFact call sibling (some s)) .conflictDisputed,
        (eventually_ge_atTop (p.tokenCount +
          estimateTokens (p.printFact call sibling (some s)).line)).mono fun b hb ↦ ?_,
        grows_addFact _ _ _, ?_⟩
      · rw [packSibling, if_neg hpacked]
        simp only [PackingCall.withBudget, hrow, if_neg hforgotten]
        exact if_neg (not_lt.mpr hb)
      · rintro f ⟨⟩ -
        refine List.mem_append_right _ (List.mem_singleton.mpr ?_)
        exact (hkeyed id sibling hrow).symm

/-- Under a large budget, the siblings that can be served are packed. -/
theorem eventually_packSiblings (hkeyed : call.KeyedRows) (s : ConflictSet) (p : Packing)
    (ids : List FactId) :
    ∃ q, (∀ᶠ b in atTop, ids.foldl (packSibling (call.withBudget b) s) p = q) ∧ Grows p q ∧
      q.IncludesSiblings call ids := by
  induction ids generalizing p with
  | nil => exact ⟨p, .of_forall fun b ↦ rfl, .refl p, by rintro _ ⟨⟩⟩
  | cons id ids ih =>
    obtain ⟨q, hq, hgrows, hincluded⟩ := eventually_packSibling hkeyed s p id
    obtain ⟨r, hr, hgrows', hrest⟩ := ih q
    refine ⟨r, (hq.and hr).mono fun b hb ↦ ?_, hgrows.trans hgrows', ?_⟩
    · rw [List.foldl_cons, hb.1, hb.2]
    · intro other hother f hf hserved
      rcases List.mem_cons.mp hother with rfl | hother
      · exact hgrows'.facts (hincluded f hf hserved)
      · exact hrest other hother f hf hserved

/-- Under a large budget, a row is packed. -/
theorem eventually_packRow (hkeyed : call.KeyedRows) (p : Packing) (row : PoolRow) :
    ∃ q, (∀ᶠ b in atTop, p.packRow (call.withBudget b) row = q) ∧ Grows p q ∧
      q.Includes call row := by
  cases row with
  | fact row =>
    cases hconflict : call.contestedConflict row.fact.id with
    | none =>
      refine ⟨p.addFact (p.printFact call row.fact none) .topScore,
        (eventually_ge_atTop (p.tokenCount +
          estimateTokens (p.printFact call row.fact none).line)).mono fun b hb ↦ ?_,
        grows_addFact _ _ _, ?_, ?_⟩
      · rw [packRow, packFact]
        simp only [PackingCall.withBudget, hconflict]
        exact if_neg (not_lt.mpr hb)
      · exact List.mem_append_right _ (List.mem_singleton_self _)
      · intro s hs
        rw [hconflict] at hs
        cases hs
    | some s =>
      set charged :=
        (p.addFact (p.printFact call row.fact (some s)) .conflictDisputed).chargeContested
      obtain ⟨q, hq, hgrows, hincluded⟩ := eventually_packSiblings hkeyed s charged s.factIds
      have hcharge : Grows p charged := ⟨List.subset_append_left _ _, List.Subset.refl _⟩
      refine ⟨q, ?_, hcharge.trans hgrows, ?_, ?_⟩
      · refine (hq.and (eventually_ge_atTop (p.tokenCount +
          estimateTokens (p.printFact call row.fact (some s)).line))).mono fun b hb ↦ ?_
        rw [← hb.1, packRow, packFact]
        simp only [PackingCall.withBudget, hconflict]
        exact if_neg (not_lt.mpr hb.2)
      · exact hgrows.facts (List.mem_append_right _ (List.mem_singleton_self _))
      · intro s' hs'
        rw [hconflict] at hs'
        rwa [← Option.some.inj hs']
  | episode row =>
    refine ⟨p.addEpisode (p.printEpisode call row) row.chunk.id, ?_,
      ⟨List.Subset.refl _, List.subset_append_left _ _⟩,
      _, List.mem_append_right _ (List.mem_singleton_self _), rfl⟩
    refine ((eventually_ge_atTop (p.tokenCount +
      estimateTokens (p.printEpisode call row).line)).and (eventually_ge_atTop
        (2 * (p.episodeTokenCount + estimateTokens (p.printEpisode call row).line)))).mono
      fun b hb ↦ ?_
    rw [packRow, packEpisode]
    refine (if_neg fun hover ↦ ?_).trans (if_neg (not_lt.mpr hb.1))
    exact absurd hover.2 (not_lt.mpr hb.2)

/-- **Large budgets.**  Under a large budget, every row is packed. -/
theorem eventually_packRows (hkeyed : call.KeyedRows) (p : Packing) (rows : List PoolRow) :
    ∃ q, (∀ᶠ b in atTop, rows.foldl (packRow (call.withBudget b)) p = q) ∧ Grows p q ∧
      ∀ row ∈ rows, q.Includes call row := by
  induction rows generalizing p with
  | nil => exact ⟨p, .of_forall fun b ↦ rfl, .refl p, by rintro _ ⟨⟩⟩
  | cons row rows ih =>
    obtain ⟨q, hq, hgrows, hincluded⟩ := eventually_packRow hkeyed p row
    obtain ⟨r, hr, hgrows', hrest⟩ := ih q
    refine ⟨r, (hq.and hr).mono fun b hb ↦ ?_, hgrows.trans hgrows', ?_⟩
    · rw [List.foldl_cons, hb.1, hb.2]
    · intro other hother
      rcases List.mem_cons.mp hother with rfl | hother
      · exact hincluded.mono hgrows'
      · exact hrest other hother

end Packing

/-! ## Calls -/

section Calls

variable {reader : Reader} {store : Store} {request : ContextRequest} {built : BuiltContext}

/-- A fact that is loaded because a fact that passes the gate is contested with it. -/
def Sibling (reader : Reader) (store : Store) (request : ContextRequest) (f : Fact) : Prop :=
  ∃ row s, .fact row ∈ (gatedRows reader store request).1 ∧
    contestedConflict (store.ledger.openConflictSets request.scope) row.fact.id = some s ∧
    f.id ∈ s.factIds ∧ f ∈ store.ledger.facts ∧ f.Served

/-- A fact a call can serve. -/
inductive Servable (reader : Reader) (store : Store) (request : ContextRequest) (f : Fact) : Prop where
  | ranked (row : FactRow) (mem : .fact row ∈ (gatedRows reader store request).1)
      (eq : row.fact = f)
  | sibling (sibling : Sibling reader store request f)

theorem Servable.mem {f : Fact} (h : Servable reader store request f) : f ∈ store.ledger.facts := by
  cases h with
  | ranked row mem eq => exact eq ▸ (mem_factRows (mem_gatedRows mem).1).1
  | sibling sibling =>
    obtain ⟨-, -, -, -, -, hf, -⟩ := sibling
    exact hf

/-- A sibling, by its key and the key of the fact it is contested with. -/
theorem sibling_of_ids (id : FactId) {f : Fact}
    (hrow : .fact id ∈ (gatedRows reader store request).1.map PoolRow.id)
    (hs : ∃ s ∈ contestedConflict (store.ledger.openConflictSets request.scope) id,
      f.id ∈ s.factIds) (hf : f ∈ store.ledger.facts) (hserved : f.Served) :
    Sibling reader store request f := by
  obtain ⟨row, hmem, hid⟩ := List.mem_map.mp hrow
  obtain ⟨s, hs, hlisted⟩ := hs
  cases row with
  | episode row => cases hid
  | fact row =>
    obtain rfl := ItemId.fact.inj hid
    exact ⟨row, s, hmem, hs, hlisted, hf, hserved⟩

/-- A row that passed the gate is determined by its key. -/
theorem gatedRows_inj {row row' : PoolRow} (h : row ∈ (gatedRows reader store request).1)
    (h' : row' ∈ (gatedRows reader store request).1) (heq : row.id = row'.id) : row = row' :=
  List.inj_on_of_nodup_map (nodup_gatedRows reader store request) h h' heq

/-- The facts of a packet can be served. -/
theorem servable_of_mem {printed : Printed PacketFact}
    (hbuilt : buildContext reader store request = .ok built) (h : printed ∈ built.packet.facts) :
    ∃ f ref conflict, Servable reader store request f ∧
      printed.item = packetFact reader (request.now reader) ref f conflict := by
  obtain ⟨-, pool, hpool, packed, rfl, rfl⟩ := buildContext_eq_ok hbuilt
  have hrows {row : PoolRow} (hrow : row ∈ pool.map Ranked.row) :
      row ∈ (gatedRows reader store request).1 := by
    obtain ⟨a, ha, rfl⟩ := List.mem_map.mp hrow
    exact hpool a ha
  cases (pack_sourced (packingCall reader store request) (gatedRows reader store request).2
    pool).facts printed h with
  | row ref row mem eq => exact ⟨row.fact, ref, _, .ranked row (hrows mem) rfl, eq⟩
  | sibling ref row conflict siblingId sibling mem packed contested listed hydrated other served eq =>
    obtain ⟨hsibling, rfl⟩ := Db.fact?_eq_some_iff.mp (contestedRow_some hydrated)
    exact ⟨sibling, ref, some conflict,
      .sibling ⟨row, conflict, hrows mem, contested, listed, hsibling, served⟩, eq⟩

/-- The episodes of a packet passed the gate. -/
theorem episode_of_mem {printed : Printed PacketEpisode}
    (hbuilt : buildContext reader store request = .ok built) (h : printed ∈ built.packet.episodes) :
    ∃ row ref, .episode row ∈ (gatedRows reader store request).1 ∧
      printed.item = packetEpisode reader (request.now reader) ref row := by
  obtain ⟨-, pool, hpool, packed, rfl, rfl⟩ := buildContext_eq_ok hbuilt
  have hsources : ∀ printed ∈ (pack (packingCall reader store request)
      (gatedRows reader store request).2 pool).episodes, ∃ row ref,
        .episode row ∈ pool.map Ranked.row ∧
        printed.item = packetEpisode reader (request.now reader) ref row := by
    refine pack_rule (I := fun p ↦ ∀ printed ∈ p.episodes, ∃ row ref,
      .episode row ∈ pool.map Ranked.row ∧
      printed.item = packetEpisode reader (request.now reader) ref row) ?_ (by rintro _ ⟨⟩)
    constructor
    case skip => exact fun _ _ _ _ _ h ↦ h
    case fact => exact fun _ _ _ _ _ h ↦ h
    case contested => exact fun _ _ _ _ _ _ h ↦ h
    case sibling => exact fun _ _ _ _ _ _ _ _ _ h ↦ h
    case episode =>
      intro p row hrow _ _ h printed hprinted
      rcases List.mem_append.mp hprinted with hprinted | hprinted
      · exact h printed hprinted
      · rw [List.mem_singleton.mp hprinted]
        exact ⟨row, _, hrow, rfl⟩
  obtain ⟨row, ref, hrow, hitem⟩ := hsources printed h
  obtain ⟨a, ha, hrow⟩ := List.mem_map.mp hrow
  exact ⟨row, ref, hrow ▸ hpool a ha, hitem⟩

/-- **Large budgets.**  A large budget serves everything that can be served. -/
theorem eventually_serves (haligned : reader.RerankAligned) (store : Store)
    (request : ContextRequest) :
    ∀ᶠ budgetTokens : Nat in atTop, ∃ built, 0 < budgetTokens ∧
      buildContext reader store (request.withBudget budgetTokens) = .ok built ∧
      (∀ f, Servable reader store request f → ∃ printed ∈ built.packet.facts, ∃ ref conflict,
        printed.item = packetFact reader (request.now reader) ref f conflict) ∧
      ∀ row, .episode row ∈ (gatedRows reader store request).1 →
        ∃ printed ∈ built.packet.episodes, ∃ ref,
          printed.item = packetEpisode reader (request.now reader) ref row := by
  have hpool := packedPool_perm store request haligned
  obtain ⟨q, hq, -, hincluded⟩ := Packing.eventually_packRows
    (packingCall_keyedRows reader store request) ⟨[], [], [], 0, 0, 0, false,
      (gatedRows reader store request).2⟩ ((packedPool reader store request).map Ranked.row)
  refine (hq.and (eventually_gt_atTop 0)).mono fun b ⟨hb, hpos⟩ ↦ ?_
  have hpacked : packedContext reader store (request.withBudget b) = q := hb
  have hbuilt := buildContext_eq reader store (request.withBudget b) (Int.natCast_pos.mpr hpos)
  refine ⟨_, hpos, hbuilt, fun f hf ↦ ?_, fun row hrow ↦ ?_⟩
  · have hid : f.id ∈ (packedContext reader store (request.withBudget b)).packedFactIds := by
      rw [hpacked]
      cases hf with
      | ranked row mem eq =>
        exact eq ▸ (hincluded (.fact row) (hpool.mem_iff.mpr mem)).1
      | sibling sibling =>
        obtain ⟨row, s, hrow, hs, hlisted, hmem, hserved⟩ := sibling
        refine (hincluded (.fact row) (hpool.mem_iff.mpr hrow)).2 s hs f.id hlisted f ?_ hserved
        exact contestedRow_of_contestedIn (List.Subset.refl _) ⟨row, hrow, hs⟩ hmem hlisted
    rw [(packedContext_balanced reader store (request.withBudget b)).ids] at hid
    obtain ⟨printed, hprinted, hid⟩ := List.mem_map.mp hid
    obtain ⟨f', ref, conflict, hf', hitem⟩ := servable_of_mem hbuilt hprinted
    have hsame : f'.id = f.id := by
      rw [← hid, hitem]
      rfl
    obtain rfl : f' = f := Db.eq_of_id_eq hf'.mem hf.mem hsame
    exact ⟨printed, hprinted, ref, conflict, hitem⟩
  · have hmem := hincluded (.episode row) (hpool.mem_iff.mpr hrow)
    rw [← hpacked] at hmem
    obtain ⟨printed, hprinted, hid⟩ := hmem
    obtain ⟨row', ref, hrow', hitem⟩ := episode_of_mem hbuilt hprinted
    have hsame : PoolRow.id (.episode row') = PoolRow.id (.episode row) := by
      rw [hitem] at hid
      exact congrArg ItemId.episode hid
    obtain rfl := PoolRow.episode.inj (gatedRows_inj hrow' hrow hsame)
    exact ⟨printed, hprinted, ref, hitem⟩

/-- **What a call can serve.**  Some budget serves everything that can be served at once. -/
theorem exists_budget (haligned : reader.RerankAligned) (store : Store) (request : ContextRequest) :
    ∃ budgetTokens built, 0 < budgetTokens ∧
      buildContext reader store (request.withBudget budgetTokens) = .ok built ∧
      (∀ f, Servable reader store request f → ∃ printed ∈ built.packet.facts, ∃ ref conflict,
        printed.item = packetFact reader (request.now reader) ref f conflict) ∧
      ∀ row, .episode row ∈ (gatedRows reader store request).1 →
        ∃ printed ∈ built.packet.episodes, ∃ ref,
          printed.item = packetEpisode reader (request.now reader) ref row := by
  obtain ⟨b, built, hpos, hserves⟩ := (eventually_serves haligned store request).exists
  exact ⟨b, built, Int.natCast_pos.mpr hpos, hserves⟩

/-- What holds of every fact that passes the gate holds of every fact of every packet exactly when it
holds of the siblings. -/
theorem forall_packets_iff (haligned : reader.RerankAligned) {Q : Fact → Prop}
    (hranked : ∀ row, .fact row ∈ (gatedRows reader store request).1 → Q row.fact) :
    (∀ budgetTokens built, buildContext reader store (request.withBudget budgetTokens) = .ok built →
      ∀ printed ∈ built.packet.facts, ∀ f ∈ store.ledger.facts, f.id = printed.item.id → Q f) ↔
    ∀ f, Sibling reader store request f → Q f := by
  constructor
  · intro h f hf
    obtain ⟨budgetTokens, built, -, hbuilt, hfacts, -⟩ := exists_budget haligned store request
    obtain ⟨printed, hprinted, ref, conflict, hitem⟩ := hfacts f (.sibling hf)
    exact h budgetTokens built hbuilt printed hprinted f (Servable.sibling hf).mem (by rw [hitem]; rfl)
  · intro h budgetTokens built hbuilt printed hprinted f hf hid
    obtain ⟨f', ref, conflict, hf', hitem⟩ := servable_of_mem hbuilt hprinted
    have hsame : f.id = f'.id := by
      rw [hid, hitem]
      rfl
    obtain rfl : f = f' := Db.eq_of_id_eq hf hf'.mem hsame
    cases hf' with
    | ranked row mem eq => exact eq ▸ hranked row mem
    | sibling sibling => exact h f sibling

end Calls

end Haki
