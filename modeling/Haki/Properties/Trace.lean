import Haki.Context.Decided
import Haki.Sample

/-!
# The trace explains the packet

Every row candidate generation returns is decided once, the decisions to
include are the items of the packet, and every member of the conflict set of a
served fact is decided as well.
-/

namespace Haki

open Data

/-! ## Siblings are explained -/

section

variable {call : PackingCall} {rows : List PoolRow} {p : Packing} {s : ConflictSet}

/-- A decision is about the fact. -/
def Packing.Decides (p : Packing) (id : FactId) : Prop := ∃ d ∈ p.decisions, d.item = .fact id

/-- Every packed fact is decided. -/
def Packing.Named (p : Packing) : Prop := ∀ id ∈ p.packedFactIds, p.Decides id

/-- The members of a set that can be loaded are decided. -/
def Packing.Explains (call : PackingCall) (p : Packing) (s : ConflictSet) : Prop :=
  ∀ id ∈ s.factIds, call.contestedRow id ≠ none → p.Decides id

/-- Every contested fact of the packet is explained, by the set it is contested in. -/
def Packing.Explained (call : PackingCall) (rows : List PoolRow) (p : Packing) : Prop :=
  ∀ printed ∈ p.facts, ∀ cid ∈ printed.item.conflictId,
    ∃ s, ContestedIn call rows s ∧ s.id = cid ∧ p.Explains call s

namespace Packing

/-- What a step within the siblings of a set does to the trace. -/
structure Extends (s : ConflictSet) (p q : Packing) : Prop where
  decisions : p.decisions ⊆ q.decisions
  facts : ∀ printed ∈ q.facts, printed ∈ p.facts ∨ printed.item.conflictId = some s.id
  named : q.Named

theorem Extends.trans {p q r : Packing} (h : Extends s p q) (h' : Extends s q r) :
    Extends s p r where
  decisions := List.Subset.trans h.decisions h'.decisions
  facts printed hprinted := by
    rcases h'.facts printed hprinted with hq | hconflict
    · exact h.facts printed hq
    · exact .inr hconflict
  named := h'.named

theorem Decides.mono {p q : Packing} {id : FactId} (h : p.Decides id)
    (hsub : p.decisions ⊆ q.decisions) : q.Decides id := by
  obtain ⟨d, hd, hitem⟩ := h
  exact ⟨d, hsub hd, hitem⟩

theorem Named.note (h : p.Named) (item : ItemId) (action : DecisionAction) (reason : ReasonCode) :
    (p.note item action reason).Named :=
  fun id hid ↦ (h id hid).mono (List.subset_append_left _ _)

theorem Named.addFact (h : p.Named) (printed : Printed PacketFact) (reason : ReasonCode) :
    (p.addFact printed reason).Named := by
  intro id hid
  rcases List.mem_append.mp hid with hid | hid
  · exact (h id hid).mono (List.subset_append_left _ _)
  · rw [List.mem_singleton.mp hid]
    exact ⟨_, List.mem_append_right _ (List.mem_singleton_self _), rfl⟩

/-- A sibling that can be loaded is decided, now or before. -/
theorem packSibling_extends (hkeyed : call.KeyedRows) (h : p.Named) (id : FactId) :
    Extends s p (p.packSibling call s id) ∧
      (call.contestedRow id ≠ none → (p.packSibling call s id).Decides id) := by
  have hdecided (item : ItemId) (action : DecisionAction) (reason : ReasonCode) :
      p.decisions ⊆ (p.note item action reason).decisions := List.subset_append_left _ _
  rcases Packing.packSibling_cases call s p id with
    ⟨heq, hdone⟩ | ⟨_, -, -, -, heq⟩ | ⟨_, -, -, heq⟩ | ⟨sibling, hhydrated, -, heq⟩
  · rw [heq]
    refine ⟨⟨List.Subset.refl _, fun _ ↦ .inl, h⟩, fun hrow ↦ ?_⟩
    rcases hdone with hpacked | hnone
    · exact h id hpacked
    · exact absurd hnone hrow
  · rw [heq]
    exact ⟨⟨hdecided _ _ _, fun _ ↦ .inl, h.note _ _ _⟩,
      fun _ ↦ ⟨_, List.mem_append_right _ (List.mem_singleton_self _), rfl⟩⟩
  · rw [heq]
    exact ⟨⟨hdecided _ _ _, fun _ ↦ .inl, h.note _ _ _⟩,
      fun _ ↦ ⟨_, List.mem_append_right _ (List.mem_singleton_self _), rfl⟩⟩
  · rw [heq]
    refine ⟨⟨List.subset_append_left _ _, fun printed hprinted ↦ ?_, h.addFact _ _⟩, fun _ ↦ ?_⟩
    · rcases List.mem_append.mp hprinted with hprinted | hprinted
      · exact .inl hprinted
      · rw [List.mem_singleton.mp hprinted]
        exact .inr rfl
    · refine ⟨_, List.mem_append_right _ (List.mem_singleton_self _), ?_⟩
      exact congrArg ItemId.fact (hkeyed id sibling hhydrated.row)

/-- After the siblings of a set, the set is explained. -/
theorem packSiblings_extends (hkeyed : call.KeyedRows) (h : p.Named) (ids : List FactId) :
    Extends s p (ids.foldl (packSibling call s) p) ∧
      ∀ id ∈ ids, call.contestedRow id ≠ none → (ids.foldl (packSibling call s) p).Decides id := by
  induction ids generalizing p with
  | nil => exact ⟨⟨List.Subset.refl _, fun _ ↦ .inl, h⟩, by rintro _ ⟨⟩⟩
  | cons id ids ih =>
    obtain ⟨hstep, hdecides⟩ := packSibling_extends (s := s) hkeyed h id
    obtain ⟨hrun, hrest⟩ := ih hstep.named
    refine ⟨hstep.trans hrun, fun other hother hrow ↦ ?_⟩
    rcases List.mem_cons.mp hother with rfl | hother
    · exact (hdecides hrow).mono hrun.decisions
    · exact hrest other hother hrow

theorem Explained.mono {q : Packing} (h : p.Explained call rows)
    (hfacts : ∀ printed ∈ q.facts, printed ∈ p.facts ∨ printed.item.conflictId = none)
    (hdecisions : p.decisions ⊆ q.decisions) : q.Explained call rows := by
  intro printed hprinted cid hcid
  rcases hfacts printed hprinted with hmem | hnone
  · obtain ⟨s, hs, hid, hexplains⟩ := h printed hmem cid hcid
    exact ⟨s, hs, hid, fun id hid hrow ↦ (hexplains id hid hrow).mono hdecisions⟩
  · rw [hnone] at hcid
    cases hcid

/-- Packing a fact explains the set it is contested in. -/
theorem packFact_explained (hkeyed : call.KeyedRows) (h : p.Explained call rows) (hnamed : p.Named)
    {row : FactRow} (hrow : .fact row ∈ rows) :
    (p.packFact call row.fact).Explained call rows ∧ (p.packFact call row.fact).Named := by
  rcases packFact_cases call p row.fact with ⟨-, heq⟩ | ⟨-, -, heq⟩ | ⟨s, hs, -, heq⟩
  · rw [heq]
    exact ⟨h.mono (fun _ ↦ .inl) (List.subset_append_left _ _), hnamed.note _ _ _⟩
  · rw [heq]
    refine ⟨h.mono (fun printed hprinted ↦ ?_) (List.subset_append_left _ _), hnamed.addFact _ _⟩
    rcases List.mem_append.mp hprinted with hprinted | hprinted
    · exact .inl hprinted
    · rw [List.mem_singleton.mp hprinted]
      exact .inr rfl
  · rw [heq]
    set charged := (p.addFact (p.printFact call row.fact (some s)) .conflictDisputed).chargeContested
    have hcharged : charged.Named := hnamed.addFact _ _
    obtain ⟨hextends, hdecides⟩ := packSiblings_extends (s := s) hkeyed hcharged s.factIds
    refine ⟨fun printed hprinted cid hcid ↦ ?_, hextends.named⟩
    have hexplained : printed ∈ p.facts ∨ printed.item.conflictId = some s.id := by
      rcases hextends.facts printed hprinted with hmem | hconflict
      · rcases List.mem_append.mp hmem with hmem | hmem
        · exact .inl hmem
        · rw [List.mem_singleton.mp hmem]
          exact .inr rfl
      · exact .inr hconflict
    rcases hexplained with hmem | hconflict
    · obtain ⟨s', hs', hid, hexplains⟩ := h printed hmem cid hcid
      have hsub : p.decisions ⊆ charged.decisions := List.subset_append_left _ _
      exact ⟨s', hs', hid, fun id hid hrow ↦
        (hexplains id hid hrow).mono (List.Subset.trans hsub hextends.decisions)⟩
    · rw [hconflict] at hcid
      exact ⟨s, ⟨row, hrow, hs⟩, Option.some.inj hcid, hdecides⟩

end Packing

/-- **Explanation.**  Every contested fact of a packet is explained. -/
theorem pack_explained (hkeyed : call.KeyedRows) (decisions : List Decision) (pool : List Ranked) :
    (pack call decisions pool).Explained call (pool.map Ranked.row) := by
  refine (List.foldlRecOn (motive := fun q : Packing ↦
    q.Explained call (pool.map Ranked.row) ∧ q.Named) _ _
    ⟨by rintro _ ⟨⟩, by rintro _ ⟨⟩⟩ fun q hq row hrow ↦ ?_).1
  cases row with
  | fact row => exact Packing.packFact_explained hkeyed hq.1 hq.2 hrow
  | episode row =>
    rw [Packing.packRow]
    rcases Packing.packEpisode_cases call q row with ⟨_, -, heq⟩ | ⟨-, -, heq⟩
    · rw [heq]
      exact ⟨hq.1.mono (fun _ ↦ .inl) (List.subset_append_left _ _), hq.2.note _ _ _⟩
    · rw [heq]
      refine ⟨hq.1.mono (fun _ ↦ .inl) (List.subset_append_left _ _), fun id hid ↦ ?_⟩
      exact (hq.2 id hid).mono (List.subset_append_left _ _)

end

/-! ## Traces -/

section

variable {reader : Reader} {store : Store} {request : ContextRequest}

/-- **The trace is complete.**  When every open conflict set has at most one active member, every
candidate row is decided exactly once, the decisions to include name the items of the packet one by
one, and the other members of the conflict set of a served fact are decided. -/
theorem trace_complete (haligned : reader.RerankAligned)
    (hactive : AtMostOneActive store.ledger request.scope) {built : BuiltContext}
    (hbuilt : buildContext reader store request = .ok built) :
    (∀ row ∈ candidateRows reader store request, decided row.id built.decisions = 1) ∧
    (built.decisions.filterMap Decision.includedFact = built.packet.facts.map (·.item.id) ∧
      (built.packet.facts.map (·.item.id)).Nodup) ∧
    (built.decisions.filterMap Decision.includedEpisode =
        built.packet.episodes.map (·.item.episodeId) ∧
      (built.packet.episodes.map (·.item.episodeId)).Nodup) ∧
    ∀ printed ∈ built.packet.facts, ∀ s ∈ store.ledger.conflictSets,
      printed.item.conflictId = some s.id → ∀ f ∈ store.ledger.facts, f.id ∈ s.factIds →
        f.id ≠ printed.item.id → ∃ d ∈ built.decisions, d.item = .fact f.id := by
  have hcall := packingCall_keyedRows reader store request
  have hpool := packedPool_perm store request haligned
  have hrows : (packedPool reader store request).map Ranked.row ⊆
      (gatedRows reader store request).1 := hpool.subset
  have hbudget := (buildContext_eq_ok hbuilt).1
  obtain rfl := Except.ok.inj ((buildContext_eq reader store request hbudget).symm.trans hbuilt)
  have haligned' := packedContext_aligned reader store request
  have hdecided {item : ItemId} (h : Unshared (packingCall reader store request)
      ((packedPool reader store request).map Ranked.row) item) :
      decided item (packedContext reader store request).decisions =
        decided item (gatedRows reader store request).2 +
          ((gatedRows reader store request).1.map PoolRow.id).count item := by
    rw [packedContext, decided_pack hcall h, (hpool.map PoolRow.id).count_eq]
  refine ⟨fun row hrow ↦ ?_, ⟨haligned'.facts, ?_⟩, ⟨haligned'.episodes, ?_⟩, ?_⟩
  · exact (hdecided (unshared_of_atMostOneActive hactive
      (fun _ h ↦ mem_candidateRows_of_gated (hrows h)) hrow)).trans (decided_gatedRows_of_mem hrow)
  · exact packedContext_nodup hactive
  · rw [List.nodup_iff_count_le_one]
    intro id
    have hunshared : Unshared (packingCall reader store request)
        ((packedPool reader store request).map Ranked.row) (.episode id) := by
      rintro _ _ _ _ _ _ ⟨⟩
    calc ((packedContext reader store request).episodes.map (·.item.episodeId)).count id
        = (packedContext reader store request).decisions.countP
            (fun d ↦ d.includedEpisode == some id) := by
          rw [← haligned'.episodes, List.count_filterMap]
      _ ≤ decided (.episode id) (packedContext reader store request).decisions :=
          List.countP_mono_left fun d _ hd ↦ by
            simpa using Decision.item_of_includedEpisode (by simpa using hd)
      _ ≤ 1 := by
          have hfacts : ((quarantinedRows store.ledger (store.ledger.openConflictSets
              request.scope)).map fun f ↦ ItemId.fact f.id).count (.episode id) = 0 :=
            List.count_eq_zero.mpr (by simp)
          rw [hdecided hunshared, decided_gatedRows, hfacts, add_zero]
          exact List.nodup_iff_count_le_one.mp (nodup_candidateRows reader store request) _
  · intro printed hprinted s hs hconflict f hf hid hother
    obtain ⟨s', hs', hid', hexplains⟩ := pack_explained hcall (gatedRows reader store request).2
      (packedPool reader store request) printed hprinted s.id hconflict
    obtain ⟨row, -, hcontested⟩ := id hs'
    obtain rfl : s' = s :=
      Table.eq_of_key_eq (contestedConflict_some hcontested).1 hs hid'
    refine hexplains f.id hid ?_
    rw [contestedRow_of_contestedIn hrows hs' hf hid]
    exact Option.some_ne_none f

end

/-- A call that serves a contested fact and the other member of its set. -/
theorem trace_complete_lyonOrNice :
    ∃ built, buildContext .sample (Sample.store (runOps .sample .empty Sample.lyonOrNice))
        Sample.request = .ok built ∧
      decided (.fact ⟨1, 0⟩) built.decisions = 1 ∧
      (built.packet.facts.map (·.item.id)).Nodup := by
  have hbuilt := buildContext_eq .sample (Sample.store (runOps .sample .empty Sample.lyonOrNice))
    Sample.request (by decide)
  obtain ⟨honce, ⟨-, hnodup⟩, -⟩ :=
    trace_complete (by rintro _ ⟨⟩) (by decide +kernel) hbuilt
  have hrows : ItemId.fact ⟨1, 0⟩ ∈ (candidateRows .sample (Sample.store (runOps .sample .empty
      Sample.lyonOrNice)) Sample.request).map PoolRow.id := by decide +kernel
  obtain ⟨row, hrow, hid⟩ := List.mem_map.mp hrows
  exact ⟨_, hbuilt, hid ▸ honce row hrow, hnodup⟩

end Haki
