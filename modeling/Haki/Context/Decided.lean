import Haki.Context.Packed

/-!
# What packing decides

Every row of the pool is decided once, and the items of a packet are the ones
that are decided to be included.  A fact whose set lists another row of the
pool would be decided twice; when every set has at most one active member no
set does.
-/

namespace Haki

open Data

/-! ## Decisions about an item -/

/-- How often an item is decided. -/
def decided (item : ItemId) (decisions : List Decision) : Nat :=
  decisions.countP fun d ↦ d.item = item

@[simp] theorem decided_append (item : ItemId) (ds es : List Decision) :
    decided item (ds ++ es) = decided item ds + decided item es := List.countP_append

@[simp] theorem decided_singleton (item : ItemId) (d : Decision) :
    decided item [d] = if d.item = item then 1 else 0 := by
  simp [decided, List.countP_singleton]

/-- The fact a decision includes. -/
def Decision.includedFact (d : Decision) : Option FactId :=
  match d.action, d.item with
  | .included, .fact id => some id
  | _, _ => none

/-- The episode a decision includes. -/
def Decision.includedEpisode (d : Decision) : Option ChunkId :=
  match d.action, d.item with
  | .included, .episode id => some id
  | _, _ => none

theorem Decision.includedFact_eq_none {d : Decision} (h : d.action ≠ .included) :
    d.includedFact = none := by
  cases ha : d.action with
  | included => exact absurd ha h
  | excluded => simp [Decision.includedFact, ha]
  | blocked => simp [Decision.includedFact, ha]

theorem Decision.includedEpisode_eq_none {d : Decision} (h : d.action ≠ .included) :
    d.includedEpisode = none := by
  cases ha : d.action with
  | included => exact absurd ha h
  | excluded => simp [Decision.includedEpisode, ha]
  | blocked => simp [Decision.includedEpisode, ha]

theorem Decision.item_of_includedFact {d : Decision} {id : FactId}
    (h : d.includedFact = some id) : d.item = .fact id := by
  rw [Decision.includedFact] at h
  split at h
  · next hitem => rw [hitem, Option.some.inj h]
  · cases h

theorem Decision.item_of_includedEpisode {d : Decision} {id : ChunkId}
    (h : d.includedEpisode = some id) : d.item = .episode id := by
  rw [Decision.includedEpisode] at h
  split at h
  · next hitem => rw [hitem, Option.some.inj h]
  · cases h

/-! ## Inclusion -/

/-- The decisions to include name the items of the packet, in order. -/
structure Packing.Aligned (p : Packing) : Prop where
  facts : p.decisions.filterMap Decision.includedFact = p.facts.map (·.item.id)
  episodes : p.decisions.filterMap Decision.includedEpisode = p.episodes.map (·.item.episodeId)

section Aligned

variable {call : PackingCall} {rows : List PoolRow} {p : Packing}

theorem Packing.Aligned.addFact (h : p.Aligned) (printed : Printed PacketFact)
    (reason : ReasonCode) : (p.addFact printed reason).Aligned where
  facts := by
    simp only [Packing.addFact, List.filterMap_append, h.facts, List.map_append]
    rfl
  episodes := by
    simp only [Packing.addFact, List.filterMap_append, h.episodes]
    exact List.append_nil _

/-- What is decided before packing includes nothing. -/
theorem pack_aligned (call : PackingCall) {decisions : List Decision} (pool : List Ranked)
    (hstart : ∀ d ∈ decisions, d.action ≠ .included) : (pack call decisions pool).Aligned := by
  refine pack_rule (I := Packing.Aligned) ?_ ?_
  · constructor
    case skip =>
      intro p item action reason hnot h
      constructor
      · simp only [Packing.note, List.filterMap_append, h.facts,
          List.filterMap_cons_none (Decision.includedFact_eq_none (d := ⟨item, action, reason⟩) hnot),
          List.filterMap_nil, List.append_nil]
      · simp only [Packing.note, List.filterMap_append, h.episodes,
          List.filterMap_cons_none
            (Decision.includedEpisode_eq_none (d := ⟨item, action, reason⟩) hnot),
          List.filterMap_nil, List.append_nil]
    case fact => exact fun _ _ _ _ _ h ↦ h.addFact _ _
    case contested =>
      intro p row s _ _ _ h
      exact ⟨(h.addFact _ _).facts, (h.addFact _ _).episodes⟩
    case sibling => exact fun _ _ _ _ _ _ _ _ _ h ↦ h.addFact _ _
    case episode =>
      intro p row _ _ _ h
      constructor
      · simp only [Packing.addEpisode, List.filterMap_append, h.facts]
        exact List.append_nil _
      · simp only [Packing.addEpisode, List.filterMap_append, h.episodes, List.map_append]
        rfl
  · constructor
    · exact List.filterMap_eq_nil_iff.mpr fun d hd ↦ Decision.includedFact_eq_none (hstart d hd)
    · exact List.filterMap_eq_nil_iff.mpr fun d hd ↦ Decision.includedEpisode_eq_none (hstart d hd)

end Aligned

/-! ## One decision a row -/

/-- Siblings are loaded by their key. -/
def PackingCall.KeyedRows (call : PackingCall) : Prop :=
  ∀ id sibling, call.contestedRow id = some sibling → sibling.id = id

/-- A set in which a fact of the pool is contested does not list the item, unless it is this fact. -/
def Unshared (call : PackingCall) (rows : List PoolRow) (item : ItemId) : Prop :=
  ∀ row s, .fact row ∈ rows → call.contestedConflict row.fact.id = some s →
    ∀ id ∈ s.factIds, .fact id = item → id = row.fact.id

section Once

variable {call : PackingCall} {rows : List PoolRow} {p : Packing} {item : ItemId}

/-- Packing the siblings of a packed fact does not decide an unshared item. -/
theorem decided_packSiblings (hkeyed : call.KeyedRows) (h : Unshared call rows item)
    {row : FactRow} (hrow : .fact row ∈ rows) {s : ConflictSet}
    (hs : call.contestedConflict row.fact.id = some s) (hpacked : row.fact.id ∈ p.packedFactIds) :
    decided item (s.factIds.foldl (Packing.packSibling call s) p).decisions =
      decided item p.decisions := by
  refine (List.foldlRecOn (motive := fun q : Packing ↦
    decided item q.decisions = decided item p.decisions ∧ row.fact.id ∈ q.packedFactIds)
    s.factIds _ ⟨rfl, hpacked⟩ fun q hq id hid ↦ ?_).1
  obtain ⟨hq, hpacked⟩ := hq
  have hother (hnew : id ∉ q.packedFactIds) : ItemId.fact id ≠ item :=
    fun heq ↦ hnew (h row s hrow hs id hid heq ▸ hpacked)
  rcases Packing.packSibling_cases call s q id with
    ⟨heq, -⟩ | ⟨_, hnew, -, -, heq⟩ | ⟨_, hhydrated, -, heq⟩ | ⟨sibling, hhydrated, -, heq⟩
  · rw [heq]
    exact ⟨hq, hpacked⟩
  · rw [heq]
    refine ⟨?_, hpacked⟩
    rw [Packing.note, decided_append, decided_singleton, if_neg (hother hnew), hq, add_zero]
  · rw [heq]
    refine ⟨?_, hpacked⟩
    rw [Packing.note, decided_append, decided_singleton, if_neg (hother hhydrated.new), hq,
      add_zero]
  · rw [heq]
    refine ⟨?_, List.mem_append_left _ hpacked⟩
    have hid : (q.printFact call sibling (some s)).item.id = id :=
      hkeyed id sibling hhydrated.row
    rw [Packing.addFact, decided_append, decided_singleton, hid, if_neg (hother hhydrated.new), hq,
      add_zero]

/-- Packing a row decides an unshared item once if it is this row, and never otherwise. -/
theorem decided_packRow (hkeyed : call.KeyedRows) (h : Unshared call rows item) {row : PoolRow}
    (hrow : row ∈ rows) :
    decided item (p.packRow call row).decisions =
      decided item p.decisions + if row.id = item then 1 else 0 := by
  cases row with
  | fact row =>
    rw [Packing.packRow]
    rcases Packing.packFact_cases call p row.fact with
      ⟨-, heq⟩ | ⟨-, -, heq⟩ | ⟨s, hs, -, heq⟩
    · rw [heq, Packing.note, decided_append, decided_singleton]
      rfl
    · rw [heq, Packing.addFact, decided_append, decided_singleton]
      rfl
    · have hpacked : row.fact.id ∈ ((p.addFact (p.printFact call row.fact (some s))
          .conflictDisputed).chargeContested).packedFactIds :=
        List.mem_append_right _ (List.mem_singleton_self _)
      rw [heq, decided_packSiblings hkeyed h hrow hs hpacked, Packing.chargeContested,
        Packing.addFact, decided_append, decided_singleton]
      rfl
  | episode row =>
    rw [Packing.packRow]
    rcases Packing.packEpisode_cases call p row with ⟨_, -, heq⟩ | ⟨-, -, heq⟩
    · rw [heq, Packing.note, decided_append, decided_singleton]
      rfl
    · rw [heq, Packing.addEpisode, decided_append, decided_singleton]
      rfl

/-- Packing rows decides an unshared item as often as it is one of them. -/
theorem decided_packRows (hkeyed : call.KeyedRows) (h : Unshared call rows item)
    {todo : List PoolRow} (htodo : todo ⊆ rows) :
    decided item (todo.foldl (Packing.packRow call) p).decisions =
      decided item p.decisions + (todo.map PoolRow.id).count item := by
  induction todo generalizing p with
  | nil => rfl
  | cons row todo ih =>
    obtain ⟨hrow, htodo⟩ := List.cons_subset.mp htodo
    rw [List.foldl_cons, ih htodo, decided_packRow hkeyed h hrow, List.map_cons,
      List.count_cons, add_assoc]
    congr 1
    rw [add_comm]
    simp only [beq_iff_eq]

/-- **Once.**  Packing decides an unshared item as often as it is in the pool. -/
theorem decided_pack (hkeyed : call.KeyedRows) {pool : List Ranked}
    (h : Unshared call (pool.map Ranked.row) item) (decisions : List Decision) :
    decided item (pack call decisions pool).decisions =
      decided item decisions + ((pool.map Ranked.row).map PoolRow.id).count item :=
  decided_packRows hkeyed h (List.Subset.refl _)

end Once

/-! ## No fact twice -/

section Nodup

variable {call : PackingCall} {pool : List Ranked} {decisions : List Decision}

/-- A fact that is no row of the pool is packed at most once. -/
theorem count_packedFactIds_of_notMem (hkeyed : call.KeyedRows) {id : FactId}
    (hid : .fact id ∉ (pool.map Ranked.row).map PoolRow.id) :
    (pack call decisions pool).packedFactIds.count id ≤ 1 := by
  have hrow {row : FactRow} (hrow : .fact row ∈ pool.map Ranked.row) : row.fact.id ≠ id := by
    rintro rfl
    exact hid (List.mem_map_of_mem hrow)
  refine pack_rule (I := fun p ↦ p.packedFactIds.count id ≤ 1) ?_ (Nat.zero_le _)
  constructor
  case skip => exact fun _ _ _ _ _ h ↦ h
  case fact =>
    intro p row hmem _ _ h
    rw [Packing.addFact, List.count_append, List.count_singleton]
    simpa [Packing.printFact, packetFact, hrow hmem] using h
  case contested =>
    intro p row s hmem _ _ h
    rw [Packing.chargeContested, Packing.addFact, List.count_append, List.count_singleton]
    simpa [Packing.printFact, packetFact, hrow hmem] using h
  case sibling =>
    intro p s other sibling _ _ hhydrated _ _ h
    have heq : (p.printFact call sibling (some s)).item.id = other :=
      hkeyed other sibling hhydrated.row
    rw [Packing.addFact, List.count_append, List.count_singleton, heq]
    by_cases ho : other = id
    · rw [← ho, List.count_eq_zero_of_not_mem hhydrated.new]
      simp
    · simpa [ho] using h
  case episode => exact fun _ _ _ _ _ h ↦ h

/-- **No fact twice.** -/
theorem pack_nodup (hkeyed : call.KeyedRows)
    (h : ∀ item ∈ (pool.map Ranked.row).map PoolRow.id, Unshared call (pool.map Ranked.row) item)
    (hnodup : ((pool.map Ranked.row).map PoolRow.id).Nodup)
    (hstart : ∀ d ∈ decisions, d.action ≠ .included)
    (hnew : ∀ item ∈ (pool.map Ranked.row).map PoolRow.id, decided item decisions = 0) :
    ((pack call decisions pool).facts.map (·.item.id)).Nodup := by
  rw [List.nodup_iff_count_le_one]
  intro id
  by_cases hid : .fact id ∈ (pool.map Ranked.row).map PoolRow.id
  · rw [← (pack_aligned call pool hstart).facts, List.count_filterMap]
    calc (pack call decisions pool).decisions.countP (fun d ↦ d.includedFact == some id)
        ≤ decided (.fact id) (pack call decisions pool).decisions :=
          List.countP_mono_left fun d _ hd ↦ by
            simpa using Decision.item_of_includedFact (by simpa using hd)
      _ = 1 := by
          rw [decided_pack hkeyed (h _ hid), hnew _ hid, List.count_eq_one_of_mem hnodup hid]
  · rw [← (pack_balanced call decisions pool).ids]
    exact count_packedFactIds_of_notMem hkeyed hid

end Nodup

/-! ## Before packing -/

/-- The rows candidate generation returns. -/
def candidateRows (reader : Reader) (store : Store) (request : ContextRequest) : List PoolRow :=
  (factRows reader request store.ledger).map PoolRow.fact ++
    (episodeRows reader request store).map PoolRow.episode

/-- Every open conflict set of the scope has at most one active member. -/
def AtMostOneActive (db : Db) (scope : Scope) : Prop :=
  ∀ s ∈ db.openConflictSets scope, ∀ f ∈ db.facts, ∀ g ∈ db.facts,
    f.id ∈ s.factIds → g.id ∈ s.factIds → f.status = .active → g.status = .active → f.id = g.id

instance (db : Db) (scope : Scope) : Decidable (AtMostOneActive db scope) :=
  inferInstanceAs (Decidable (∀ s ∈ db.openConflictSets scope, ∀ f ∈ db.facts.rows,
    ∀ g ∈ db.facts.rows, f.id ∈ s.factIds → g.id ∈ s.factIds → f.status = .active →
      g.status = .active → f.id = g.id))

section Gate

variable {reader : Reader} {store : Store} {request : ContextRequest} {item : ItemId}

theorem nodup_candidateRows (reader : Reader) (store : Store) (request : ContextRequest) :
    ((candidateRows reader store request).map PoolRow.id).Nodup := by
  rw [candidateRows, List.map_append, List.map_map, List.map_map]
  refine List.Nodup.append ?_ ?_ ?_
  · have h := (nodup_factRows reader request store.ledger).map (f := ItemId.fact)
      fun _ _ ↦ ItemId.fact.inj
    rwa [List.map_map] at h
  · have h := (nodup_episodeRows reader request store).map (f := ItemId.episode)
      fun _ _ ↦ ItemId.episode.inj
    rwa [List.map_map] at h
  · intro item hfact hepisode
    obtain ⟨_, -, rfl⟩ := List.mem_map.mp hfact
    obtain ⟨_, -, heq⟩ := List.mem_map.mp hepisode
    cases heq

private theorem decided_map {α : Type} (f : α → Decision) (as : List α) :
    decided item (as.map f) = (as.map fun a ↦ (f a).item).count item := by
  rw [decided, List.countP_map, List.count, List.countP_map]
  refine List.countP_congr fun a _ ↦ ?_
  simp

private theorem count_map_filter {α : Type} (item : ItemId) (p : α → Prop) [DecidablePred p]
    (f : α → ItemId) (as : List α) :
    ((as.filter fun a ↦ p a).map f).count item + ((as.filter fun a ↦ ¬ p a).map f).count item =
      (as.map f).count item := by
  rw [← List.count_append, ← List.map_append]
  refine (List.Perm.map f ?_).count_eq item
  simpa using List.filter_append_perm (fun a ↦ decide (p a)) as

/-- The gate decides a candidate row or ranks it. -/
theorem decided_gatedRows (reader : Reader) (store : Store) (request : ContextRequest)
    (item : ItemId) :
    decided item (gatedRows reader store request).2 +
        ((gatedRows reader store request).1.map PoolRow.id).count item =
      ((candidateRows reader store request).map PoolRow.id).count item +
        ((quarantinedRows store.ledger (store.ledger.openConflictSets request.scope)).map
          fun f ↦ ItemId.fact f.id).count item := by
  have hgate := count_map_filter item (BelowRelevanceFloor reader) PoolRow.id
    (((factRows reader request store.ledger).filter fun row ↦
        row.fact.id ∉ quarantinedIds (store.ledger.openConflictSets request.scope)).map
      PoolRow.fact ++ (episodeRows reader request store).map PoolRow.episode)
  have hheld := count_map_filter item
    (fun row : FactRow ↦
      row.fact.id ∈ quarantinedIds (store.ledger.openConflictSets request.scope))
    (fun row ↦ ItemId.fact row.fact.id) (factRows reader request store.ledger)
  have hrows (rows : List FactRow) : (rows.map PoolRow.fact).map PoolRow.id =
      rows.map fun row ↦ ItemId.fact row.fact.id := List.map_map
  have hbelow (rows : List PoolRow) :
      decided item (rows.map fun row ↦ ⟨row.id, .excluded, .belowRelevanceFloor⟩) =
        (rows.map PoolRow.id).count item := decided_map _ _
  rw [candidateRows, List.map_append, List.count_append, hrows]
  rw [List.map_append, List.count_append, hrows] at hgate
  simp only [gatedRows, decided_append, hbelow, decided_map]
  omega

theorem mem_candidateRows {row : FactRow} (h : .fact row ∈ candidateRows reader store request) :
    row.fact ∈ store.ledger.facts ∧ scopeFilters reader request row.fact := by
  rcases List.mem_append.mp h with h | h
  · obtain ⟨row', hrow, heq⟩ := List.mem_map.mp h
    obtain rfl := PoolRow.fact.inj heq
    exact mem_factRows hrow
  · obtain ⟨_, -, heq⟩ := List.mem_map.mp h
    cases heq

/-- An episode that is ranked is a chunk that passes the filters. -/
theorem mem_gatedRows_episode {row : EpisodeRow}
    (h : .episode row ∈ (gatedRows reader store request).1) :
    row.chunk ∈ store.episodeChunks ∧ episodeScope reader request row.chunk := by
  rcases List.mem_append.mp (List.mem_filter.mp h).1 with h | h
  · obtain ⟨_, -, heq⟩ := List.mem_map.mp h
    cases heq
  · obtain ⟨row', hrow, heq⟩ := List.mem_map.mp h
    obtain rfl := PoolRow.episode.inj heq
    exact mem_episodeRows hrow

/-- A candidate row is decided by the gate or ranked, and not both. -/
theorem decided_gatedRows_of_mem {row : PoolRow} (h : row ∈ candidateRows reader store request) :
    decided row.id (gatedRows reader store request).2 +
      ((gatedRows reader store request).1.map PoolRow.id).count row.id = 1 := by
  have hquarantined : ((quarantinedRows store.ledger (store.ledger.openConflictSets
      request.scope)).map fun f ↦ ItemId.fact f.id).count row.id = 0 := by
    refine List.count_eq_zero.mpr fun hmem ↦ ?_
    obtain ⟨f, hf, heq⟩ := List.mem_map.mp hmem
    obtain ⟨hf, hcandidate⟩ := List.mem_filter.mp hf
    cases row with
    | episode row => cases heq
    | fact row =>
      obtain ⟨hrow, -, ⟨hactive, -⟩, -⟩ := mem_candidateRows h
      obtain rfl : f = row.fact := Db.eq_of_id_eq hf hrow (ItemId.fact.inj heq)
      rw [(of_decide_eq_true hcandidate).2] at hactive
      cases hactive
  rw [decided_gatedRows, hquarantined, add_zero]
  exact List.count_eq_one_of_mem (nodup_candidateRows reader store request) (List.mem_map_of_mem h)

theorem mem_candidateRows_of_gated {row : PoolRow} (h : row ∈ (gatedRows reader store request).1) :
    row ∈ candidateRows reader store request := by
  rcases List.mem_append.mp (List.mem_filter.mp h).1 with h | h
  · refine List.mem_append_left _ (List.map_subset _ ?_ h)
    exact List.filter_subset_self _
  · exact List.mem_append_right _ h

/-- No row is ranked twice. -/
theorem nodup_gatedRows (reader : Reader) (store : Store) (request : ContextRequest) :
    ((gatedRows reader store request).1.map PoolRow.id).Nodup := by
  rw [List.nodup_iff_count_le_one]
  intro item
  by_cases hitem : item ∈ (gatedRows reader store request).1.map PoolRow.id
  · obtain ⟨row, hrow, rfl⟩ := List.mem_map.mp hitem
    have honce := decided_gatedRows_of_mem (mem_candidateRows_of_gated hrow)
    omega
  · rw [List.count_eq_zero_of_not_mem hitem]
    exact Nat.zero_le 1

/-- The gate includes nothing. -/
theorem gatedRows_not_included {d : Decision} (h : d ∈ (gatedRows reader store request).2) :
    d.action ≠ .included := by
  rcases List.mem_append.mp h with h | h
  · rcases List.mem_append.mp h with h | h
    · obtain ⟨_, -, rfl⟩ := List.mem_map.mp h
      rintro ⟨⟩
    · obtain ⟨_, -, rfl⟩ := List.mem_map.mp h
      rintro ⟨⟩
  · obtain ⟨_, -, rfl⟩ := List.mem_map.mp h
    rintro ⟨⟩

/-- Siblings are loaded by their key. -/
theorem packingCall_keyedRows (reader : Reader) (store : Store) (request : ContextRequest) :
    (packingCall reader store request).KeyedRows :=
  fun _ _ h ↦ (Db.fact?_eq_some_iff.mp (contestedRow_some h)).2

/-- A set with one active member does not list two candidate rows. -/
theorem unshared_of_atMostOneActive (h : AtMostOneActive store.ledger request.scope)
    {rows : List PoolRow} (hrows : rows ⊆ candidateRows reader store request)
    {row : PoolRow} (hrow : row ∈ candidateRows reader store request) :
    Unshared (packingCall reader store request) rows row.id := by
  intro other s hother hs id hid heq
  cases row with
  | episode row => cases heq
  | fact row =>
    obtain rfl := ItemId.fact.inj heq
    obtain ⟨hrow, -, ⟨hactive, -⟩, -⟩ := mem_candidateRows hrow
    obtain ⟨hother, -, ⟨hother', -⟩, -⟩ := mem_candidateRows (hrows hother)
    obtain ⟨hs, hscope, hopen, -, hlisted⟩ := contestedConflict_some hs
    exact h s (List.mem_filter.mpr ⟨hs, decide_eq_true ⟨hscope, hopen⟩⟩) _ hrow _ hother hid hlisted
      hactive hother'

/-- The decisions of a call to include name the items of its packet. -/
theorem packedContext_aligned (reader : Reader) (store : Store) (request : ContextRequest) :
    (packedContext reader store request).Aligned :=
  pack_aligned _ _ fun _ ↦ gatedRows_not_included

/-- No row is packed twice. -/
theorem nodup_packedPool (reader : Reader) (store : Store) (request : ContextRequest) :
    (((packedPool reader store request).map Ranked.row).map PoolRow.id).Nodup := by
  obtain ⟨rows, hperm, hsublist⟩ := packedPool_subperm reader store request
  rw [← (hperm.map PoolRow.id).nodup_iff]
  exact (nodup_gatedRows reader store request).sublist (hsublist.map PoolRow.id)

/-- No fact is packed twice. -/
theorem packedContext_nodup (h : AtMostOneActive store.ledger request.scope) :
    ((packedContext reader store request).facts.map (·.item.id)).Nodup := by
  have hsubperm := packedPool_subperm reader store request
  have hcandidate {row : PoolRow} (hrow : row ∈ (packedPool reader store request).map Ranked.row) :
      row ∈ candidateRows reader store request :=
    mem_candidateRows_of_gated (hsubperm.subset hrow)
  refine pack_nodup (packingCall_keyedRows reader store request) (fun item hitem ↦ ?_)
    (nodup_packedPool reader store request) (fun d hd ↦ gatedRows_not_included hd)
    fun item hitem ↦ ?_
  · obtain ⟨row, hrow, rfl⟩ := List.mem_map.mp hitem
    exact unshared_of_atMostOneActive h (fun _ ↦ hcandidate) (hcandidate hrow)
  · obtain ⟨row, hrow, rfl⟩ := List.mem_map.mp hitem
    have honce := decided_gatedRows_of_mem (hcandidate hrow)
    have hgated : 0 < ((gatedRows reader store request).1.map PoolRow.id).count row.id :=
      List.count_pos_iff.mpr (List.mem_map_of_mem (hsubperm.subset hrow))
    omega

end Gate

end Haki
