import Haki.Context.Assembler
import Mathlib.Algebra.GroupWithZero.Nat

/-!
# What packing does

The loop of `pack` has five moves: skip an item, add a fact, add a contested
fact, add a sibling of a contested fact, add an episode.  `pack_rule` reduces a
fact about a packet to these moves; `Packing.Balanced` is what they keep of the
counters and of the lists they count.
-/

namespace Haki

open Data

/-! ## Moves -/

namespace Packing

variable {call : PackingCall}

/-- A printed episode enters the packet. -/
def addEpisode (p : Packing) (printed : Printed PacketEpisode) (id : ChunkId) : Packing :=
  { p with
    episodes := p.episodes ++ [printed]
    tokenCount := p.tokenCount + estimateTokens printed.line
    episodeTokenCount := p.episodeTokenCount + estimateTokens printed.line
    episodesPacked := p.episodesPacked + 1
    decisions := p.decisions ++ [⟨.episode id, .included, .topScore⟩] }

/-- There is room for a line. -/
def Fits (call : PackingCall) (p : Packing) (line : String) : Prop :=
  p.tokenCount + estimateTokens line ≤ call.budgetTokens

/-- A sibling that is not packed yet can be served. -/
structure Hydrated (call : PackingCall) (p : Packing) (id : FactId) (sibling : Fact) : Prop where
  new : id ∉ p.packedFactIds
  row : call.contestedRow id = some sibling
  served : ¬ (sibling.status = .disabled ∨ sibling.status = .deleted)

/-- What becomes of a sibling. -/
theorem packSibling_cases (call : PackingCall) (s : ConflictSet) (p : Packing) (id : FactId) :
    (p.packSibling call s id = p ∧ (id ∈ p.packedFactIds ∨ call.contestedRow id = none)) ∨
    (∃ sibling, id ∉ p.packedFactIds ∧ call.contestedRow id = some sibling ∧
      (sibling.status = .disabled ∨ sibling.status = .deleted) ∧
      p.packSibling call s id = p.note (.fact id) .blocked .forgotten) ∨
    (∃ sibling, Hydrated call p id sibling ∧
      ¬ Fits call p (p.printFact call sibling (some s)).line ∧
      p.packSibling call s id = p.note (.fact id) .excluded .overBudget) ∨
    ∃ sibling, Hydrated call p id sibling ∧
      Fits call p (p.printFact call sibling (some s)).line ∧
      p.packSibling call s id =
        p.addFact (p.printFact call sibling (some s)) .conflictDisputed := by
  rw [packSibling]
  split
  · next hpacked => exact .inl ⟨rfl, .inl hpacked⟩
  · next hnew =>
    split
    · next hnone => exact .inl ⟨rfl, .inr hnone⟩
    · next sibling hsibling =>
      split
      · next hforgotten => exact .inr (.inl ⟨sibling, hnew, hsibling, hforgotten, rfl⟩)
      · next hserved =>
        dsimp only
        split
        · next hover =>
          exact .inr (.inr (.inl ⟨sibling, ⟨hnew, hsibling, hserved⟩, not_le.mpr hover, rfl⟩))
        · next hfits =>
          exact .inr (.inr (.inr ⟨sibling, ⟨hnew, hsibling, hserved⟩, not_lt.mp hfits, rfl⟩))

/-- What becomes of a fact of the pool. -/
theorem packFact_cases (call : PackingCall) (p : Packing) (row : Fact) :
    (¬ Fits call p (p.printFact call row (call.contestedConflict row.id)).line ∧
      p.packFact call row = p.note (.fact row.id) .excluded .overBudget) ∨
    (call.contestedConflict row.id = none ∧ Fits call p (p.printFact call row none).line ∧
      p.packFact call row = p.addFact (p.printFact call row none) .topScore) ∨
    ∃ s, call.contestedConflict row.id = some s ∧
      Fits call p (p.printFact call row (some s)).line ∧
      p.packFact call row = s.factIds.foldl (packSibling call s)
        (p.addFact (p.printFact call row (some s)) .conflictDisputed).chargeContested := by
  rw [packFact]
  split
  · next hover => exact .inl ⟨not_le.mpr hover, rfl⟩
  · next hfits =>
    cases hconflict : call.contestedConflict row.id with
    | none => exact .inr (.inl ⟨rfl, hconflict ▸ not_lt.mp hfits, rfl⟩)
    | some s => exact .inr (.inr ⟨s, rfl, hconflict ▸ not_lt.mp hfits, rfl⟩)

/-- From the second episode on, episodes have half of the budget. -/
def OverCeiling (call : PackingCall) (p : Packing) (line : String) : Prop :=
  0 < p.episodesPacked ∧ call.budgetTokens < 2 * (p.episodeTokenCount + estimateTokens line)

/-- What becomes of an episode of the pool. -/
theorem packEpisode_cases (call : PackingCall) (p : Packing) (row : EpisodeRow) :
    (∃ reason, (OverCeiling call p (p.printEpisode call row).line ∨
        ¬ Fits call p (p.printEpisode call row).line) ∧
      p.packEpisode call row = p.note (.episode row.chunk.id) .excluded reason) ∨
    (¬ OverCeiling call p (p.printEpisode call row).line ∧
      Fits call p (p.printEpisode call row).line ∧
      p.packEpisode call row = p.addEpisode (p.printEpisode call row) row.chunk.id) := by
  rw [packEpisode]
  split
  · next hceiling => exact .inl ⟨_, .inl hceiling, rfl⟩
  · next hceiling =>
    split
    · next hover => exact .inl ⟨_, .inr (not_le.mpr hover), rfl⟩
    · next hfits => exact .inr ⟨hceiling, not_lt.mp hfits, rfl⟩

end Packing

/-! ## The loop rule -/

section Rule

variable {call : PackingCall} {rows : List PoolRow} {I : Packing → Prop}

/-- The set a fact of the pool is contested in. -/
def ContestedIn (call : PackingCall) (rows : List PoolRow) (s : ConflictSet) : Prop :=
  ∃ row, .fact row ∈ rows ∧ call.contestedConflict row.fact.id = some s

/-- What the five moves keep. -/
structure KeptByMoves (call : PackingCall) (rows : List PoolRow) (I : Packing → Prop) : Prop where
  skip : ∀ p item action reason, action ≠ .included → I p → I (p.note item action reason)
  fact : ∀ p row, .fact row ∈ rows → call.contestedConflict row.fact.id = none →
    p.Fits call (p.printFact call row.fact none).line → I p →
    I (p.addFact (p.printFact call row.fact none) .topScore)
  contested : ∀ p row s, .fact row ∈ rows → call.contestedConflict row.fact.id = some s →
    p.Fits call (p.printFact call row.fact (some s)).line → I p →
    I (p.addFact (p.printFact call row.fact (some s)) .conflictDisputed).chargeContested
  sibling : ∀ p s id sibling, ContestedIn call rows s → id ∈ s.factIds →
    p.Hydrated call id sibling → p.Fits call (p.printFact call sibling (some s)).line →
    p.contestedCharged = true → I p →
    I (p.addFact (p.printFact call sibling (some s)) .conflictDisputed)
  episode : ∀ p row, .episode row ∈ rows → ¬ p.OverCeiling call (p.printEpisode call row).line →
    p.Fits call (p.printEpisode call row).line → I p →
    I (p.addEpisode (p.printEpisode call row) row.chunk.id)

namespace KeptByMoves

theorem packSiblings (h : KeptByMoves call rows I) {s : ConflictSet} (hs : ContestedIn call rows s)
    {p : Packing} (hcharged : p.contestedCharged = true) (hI : I p) :
    I (s.factIds.foldl (Packing.packSibling call s) p) := by
  refine (List.foldlRecOn (motive := fun q : Packing ↦ I q ∧ q.contestedCharged = true) s.factIds _
    ⟨hI, hcharged⟩ fun q hq id hid ↦ ?_).1
  obtain ⟨hI, hcharged⟩ := hq
  rcases Packing.packSibling_cases call s q id with
    ⟨heq, -⟩ | ⟨_, -, -, -, heq⟩ | ⟨_, -, -, heq⟩ | ⟨sibling, hhydrated, hfits, heq⟩
  · rw [heq]
    exact ⟨hI, hcharged⟩
  · rw [heq]
    exact ⟨h.skip q _ _ _ (by decide) hI, hcharged⟩
  · rw [heq]
    exact ⟨h.skip q _ _ _ (by decide) hI, hcharged⟩
  · rw [heq]
    exact ⟨h.sibling q s id sibling hs hid hhydrated hfits hcharged hI, hcharged⟩

theorem packRow (h : KeptByMoves call rows I) {p : Packing} (hI : I p) {row : PoolRow}
    (hrow : row ∈ rows) : I (p.packRow call row) := by
  cases row with
  | fact row =>
    rw [Packing.packRow]
    rcases Packing.packFact_cases call p row.fact with
      ⟨-, heq⟩ | ⟨hnone, hfits, heq⟩ | ⟨s, hs, hfits, heq⟩
    · exact heq ▸ h.skip p _ _ _ (by decide) hI
    · exact heq ▸ h.fact p row hrow hnone hfits hI
    · exact heq ▸ h.packSiblings ⟨row, hrow, hs⟩ rfl (h.contested p row s hrow hs hfits hI)
  | episode row =>
    rw [Packing.packRow]
    rcases Packing.packEpisode_cases call p row with ⟨_, -, heq⟩ | ⟨hceiling, hfits, heq⟩
    · exact heq ▸ h.skip p _ _ _ (by decide) hI
    · exact heq ▸ h.episode p row hrow hceiling hfits hI

end KeptByMoves

/-- **Loop rule.**  What the five moves keep, packing keeps. -/
theorem pack_rule {pool : List Ranked} {decisions : List Decision}
    (h : KeptByMoves call (pool.map Ranked.row) I) (hstart : I { decisions := decisions }) :
    I (pack call decisions pool) :=
  List.foldlRecOn (motive := I) _ _ hstart fun _ hI _ hrow ↦ h.packRow hI hrow

end Rule

/-! ## Counters and lists -/

/-- What printed items cost. -/
def printedCost {α : Type} (items : List (Printed α)) : Nat :=
  (items.map fun printed ↦ estimateTokens printed.line).sum

@[simp] theorem printedCost_append {α : Type} (items : List (Printed α)) (printed : Printed α) :
    printedCost (items ++ [printed]) = printedCost items + estimateTokens printed.line := by
  simp [printedCost]

/-- The references of `n` items: the letter and the position, from one on. -/
def refs (letter : String) (n : Nat) : List String :=
  (List.range n).map fun i ↦ letter ++ toString (i + 1)

theorem refs_succ (letter : String) (n : Nat) :
    refs letter (n + 1) = refs letter n ++ [letter ++ toString (n + 1)] := by
  simp [refs, List.range_succ]

/-- The counters count what is in the lists. -/
structure Packing.Balanced (call : PackingCall) (p : Packing) : Prop where
  ids : p.packedFactIds = p.facts.map (·.item.id)
  tokens : p.tokenCount = printedCost p.facts + printedCost p.episodes
  within : p.tokenCount ≤ call.budgetTokens
  episodeTokens : p.episodeTokenCount = printedCost p.episodes
  episodesPacked : p.episodesPacked = p.episodes.length
  ceiling : 2 ≤ p.episodes.length → 2 * p.episodeTokenCount ≤ call.budgetTokens
  factRefs : p.facts.map (·.item.ref) = refs "F" p.facts.length
  factLines : ∀ printed ∈ p.facts, printed.line = call.reader.renderFact printed.item
  episodeRefs : p.episodes.map (·.item.ref) = refs "E" p.episodes.length
  episodeLines : ∀ printed ∈ p.episodes, printed.line = renderEpisode printed.item

/-- The instructions about contested facts are paid for when one is packed. -/
def Packing.PaidWhenContested (p : Packing) : Prop :=
  p.contestedCharged = true ↔ ∃ printed ∈ p.facts, printed.item.conflictId.isSome

section Balanced

variable {call : PackingCall} {p : Packing}

namespace Packing.Balanced

theorem start (call : PackingCall) (decisions : List Decision) :
    Packing.Balanced call { decisions := decisions } where
  ids := rfl
  tokens := rfl
  within := Nat.zero_le _
  episodeTokens := rfl
  episodesPacked := rfl
  ceiling h := by simp at h
  factRefs := rfl
  factLines _ h := by cases h
  episodeRefs := rfl
  episodeLines _ h := by cases h

theorem note (h : p.Balanced call) (item : ItemId) (action : DecisionAction) (reason : ReasonCode) :
    (p.note item action reason).Balanced call := { h with }

theorem chargeContested (h : p.Balanced call) : p.chargeContested.Balanced call := { h with }

theorem addFact (h : p.Balanced call) (row : Fact) (s : Option ConflictSet) (reason : ReasonCode)
    (hfits : p.Fits call (p.printFact call row s).line) :
    (p.addFact (p.printFact call row s) reason).Balanced call where
  ids := by simp [Packing.addFact, h.ids]
  tokens := by
    simp only [Packing.addFact, printedCost_append, h.tokens]
    omega
  within := hfits
  episodeTokens := h.episodeTokens
  episodesPacked := h.episodesPacked
  ceiling := h.ceiling
  factRefs := by
    simp only [Packing.addFact, List.map_append, h.factRefs, List.length_append, List.length_cons,
      List.length_nil, Nat.zero_add, refs_succ]
    rfl
  factLines printed hprinted := by
    rcases List.mem_append.mp hprinted with hprinted | hprinted
    · exact h.factLines printed hprinted
    · rw [List.mem_singleton.mp hprinted]
      rfl
  episodeRefs := h.episodeRefs
  episodeLines := h.episodeLines

theorem addEpisode (h : p.Balanced call) (row : EpisodeRow)
    (hceiling : ¬ p.OverCeiling call (p.printEpisode call row).line)
    (hfits : p.Fits call (p.printEpisode call row).line) :
    (p.addEpisode (p.printEpisode call row) row.chunk.id).Balanced call where
  ids := h.ids
  tokens := by
    simp only [Packing.addEpisode, printedCost_append, h.tokens]
    omega
  within := hfits
  episodeTokens := by simp only [Packing.addEpisode, printedCost_append, h.episodeTokens]
  episodesPacked := by simp [Packing.addEpisode, h.episodesPacked]
  ceiling hlength := by
    have hpacked : 0 < p.episodesPacked := by
      rw [h.episodesPacked]
      simp only [Packing.addEpisode, List.length_append, List.length_singleton] at hlength
      omega
    exact not_lt.mp fun hover ↦ hceiling ⟨hpacked, hover⟩
  factRefs := h.factRefs
  factLines := h.factLines
  episodeRefs := by
    simp only [Packing.addEpisode, List.map_append, h.episodeRefs, List.length_append,
      List.length_cons, List.length_nil, Nat.zero_add, refs_succ]
    rfl
  episodeLines printed hprinted := by
    rcases List.mem_append.mp hprinted with hprinted | hprinted
    · exact h.episodeLines printed hprinted
    · rw [List.mem_singleton.mp hprinted]
      rfl

end Packing.Balanced

/-- **Balance.**  The counters of a packet count what is in it. -/
theorem pack_balanced (call : PackingCall) (decisions : List Decision) (pool : List Ranked) :
    (pack call decisions pool).Balanced call :=
  pack_rule
    { skip := fun _ item action reason _ h ↦ h.note item action reason
      fact := fun _ row _ _ hfits h ↦ h.addFact row.fact none _ hfits
      contested := fun _ row s _ _ hfits h ↦ (h.addFact row.fact (some s) _ hfits).chargeContested
      sibling := fun _ s _ sibling _ _ _ hfits _ h ↦ h.addFact sibling (some s) _ hfits
      episode := fun _ row _ hceiling hfits h ↦ h.addEpisode row hceiling hfits }
    (.start call decisions)

/-- The instructions about contested facts are charged exactly when a fact is contested. -/
theorem pack_paidWhenContested (call : PackingCall) (decisions : List Decision)
    (pool : List Ranked) : (pack call decisions pool).PaidWhenContested := by
  refine pack_rule (I := Packing.PaidWhenContested) ?_ ?_
  · constructor
    case skip => exact fun _ _ _ _ _ h ↦ h
    case fact =>
      intro p row _ _ _ h
      refine h.trans ?_
      simp [Packing.addFact, Packing.printFact, packetFact]
    case contested =>
      intro p row s _ _ _ _
      refine iff_of_true rfl ⟨_, List.mem_append_right _ (List.mem_singleton_self _), rfl⟩
    case sibling =>
      intro p s id sibling _ _ _ _ hcharged _
      refine iff_of_true hcharged ⟨_, List.mem_append_right _ (List.mem_singleton_self _), rfl⟩
    case episode => exact fun _ _ _ _ _ h ↦ h
  · simp [Packing.PaidWhenContested]

/-- The counters of a call count what is in its packet. -/
theorem packedContext_balanced (reader : Reader) (store : Store) (request : ContextRequest) :
    (packedContext reader store request).Balanced (packingCall reader store request) :=
  pack_balanced _ _ _

end Balanced

/-! ## Siblings are loaded -/

section

variable {reader : Reader} {store : Store} {request : ContextRequest}

/-- The members of the set a candidate is contested in are loaded. -/
theorem mem_servedContestedIds {conflicts : List ConflictSet} {rowIds : List FactId}
    {s : ConflictSet} {id sibling : FactId} (h : contestedConflict conflicts id = some s)
    (hid : id ∈ rowIds) (hsibling : sibling ∈ s.factIds) :
    sibling ∈ servedContestedIds conflicts rowIds := by
  have hmem := List.mem_reverse.mp (List.mem_of_find?_eq_some h)
  have hlisted := List.find?_some h
  replace hlisted : id ∈ s.factIds := of_decide_eq_true hlisted
  refine List.mem_flatMap.mpr ⟨s, List.mem_filter.mpr ⟨List.mem_filterMap.mpr ⟨id, ?_, h⟩, ?_⟩,
    hsibling⟩
  · exact List.mem_flatMap.mpr ⟨s, hmem, hlisted⟩
  · exact List.any_eq_true.mpr ⟨id, hlisted, decide_eq_true hid⟩

/-- A member of the set a pool fact is contested in is loaded when it exists. -/
theorem contestedRow_of_contestedIn {rows : List PoolRow} {s : ConflictSet} {f : Fact}
    (hrows : rows ⊆ (gatedRows reader store request).1)
    (h : ContestedIn (packingCall reader store request) rows s) (hf : f ∈ store.ledger.facts)
    (hid : f.id ∈ s.factIds) : (packingCall reader store request).contestedRow f.id = some f := by
  obtain ⟨row, hrow, hs⟩ := h
  have hserved : f.id ∈ servedContestedIds (store.ledger.openConflictSets request.scope)
      ((factRows reader request store.ledger).map (·.fact.id)) :=
    mem_servedContestedIds hs (List.mem_map_of_mem (mem_gatedRows (hrows hrow)).1) hid
  exact (if_pos hserved).trans (Db.fact?_of_mem hf)

end

end Haki
