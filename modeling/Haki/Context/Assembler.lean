import Haki.Context.Packing
import Haki.Control.Fold

/-!
# `build_context`

The open conflict sets of the scope are split: a set with two members or more
is served together with its members, a smaller one blocks its member.  Then the
rows that pass the recall gate are ranked, reranked and packed, and the packet
reports what was hidden.
-/

namespace Haki

open Data

/-! ## Open conflicts -/

/-- `_open_conflict_sets`. -/
def Db.openConflictSets (db : Db) (scope : Scope) : List ConflictSet :=
  db.conflictSets.rows.filter fun s ↦ s.scope = scope ∧ s.status = .open

/-- `CONTESTED_CONFLICT_MIN_MEMBERS`. -/
def contestedConflictMinMembers : Nat := 2

/-- The sets that are a disagreement to show. -/
def contestedSets (conflicts : List ConflictSet) : List ConflictSet :=
  conflicts.filter fun s ↦ contestedConflictMinMembers ≤ s.factIds.length

/-- `quarantined_ids`. -/
def quarantinedIds (conflicts : List ConflictSet) : List FactId :=
  (conflicts.filter fun s ↦ s.factIds.length < contestedConflictMinMembers).flatMap
    ConflictSet.factIds

/-- `contested_conflict_by_fact`: the last set that lists the fact. -/
def contestedConflict (conflicts : List ConflictSet) (id : FactId) : Option ConflictSet :=
  (contestedSets conflicts).reverse.find? fun s ↦ id ∈ s.factIds

/-- `served_contested_fact_ids`: the members of the sets that touch a candidate row. -/
def servedContestedIds (conflicts : List ConflictSet) (rowIds : List FactId) : List FactId :=
  ((((contestedSets conflicts).flatMap ConflictSet.factIds).filterMap
    (contestedConflict conflicts)).filter fun s ↦ s.factIds.any (· ∈ rowIds)).flatMap
    ConflictSet.factIds

/-- `contested_rows_by_id`: hydrated by primary key alone. -/
def contestedRow (db : Db) (conflicts : List ConflictSet) (rowIds : List FactId) (id : FactId) :
    Option Fact :=
  if id ∈ servedContestedIds conflicts rowIds then db.fact? id else none

/-- The candidates under quarantine, traced whether they match the query or not. -/
def quarantinedRows (db : Db) (conflicts : List ConflictSet) : List Fact :=
  db.facts.rows.filter fun f ↦ f.id ∈ quarantinedIds conflicts ∧ f.status = .candidate

/-! ## The recall gate -/

/-- The row is farther from the query than the recall gate lets through. -/
def BelowRelevanceFloor (reader : Reader) (row : PoolRow) : Prop :=
  0 < reader.recallMaxDistance ∧
    (row.axes.distance = none ∨ ∃ d ∈ row.axes.distance, reader.recallMaxDistance < d)

instance (reader : Reader) (row : PoolRow) : Decidable (BelowRelevanceFloor reader row) :=
  inferInstanceAs (Decidable (_ ∧ (_ ∨ _)))

/-! ## The packet -/

/-- `packet["status"]`. -/
inductive ContextStatus where
  | ok | degraded
deriving DecidableEq, Repr

/-- `packet["empty_reason"]`. -/
inductive EmptyReason where
  | noRelevantMemory
deriving DecidableEq, Repr

/-- The packet. -/
structure ContextPacket where
  overheadTokens : Nat
  facts : List (Printed PacketFact)
  episodes : List (Printed PacketEpisode)
  warnings : List String
  status : ContextStatus
  emptyReason : Option EmptyReason

/-- The packet, its cost, and the decisions its trace records. -/
structure BuiltContext where
  packet : ContextPacket
  tokenCount : Nat
  decisions : List Decision

/-- The alias under which a subject without memory is registered. -/
def fragmentationAlias (store : Store) (scope : Scope) : Option SubjectAlias :=
  store.subjectAliases.find? fun a ↦ a.projectId = scope.projectId ∧
    a.aliasValue = scope.subjectId ∧ a.canonicalSubjectId ≠ scope.subjectId

/-- The warning about a fragmented identity. -/
def fragmentationWarning (scope : Scope) (a : SubjectAlias) : String :=
  "identity_fragmentation: subject " ++
  "'" ++ scope.subjectId ++ "' is registered as a '" ++ a.aliasKind ++ "' " ++
  "alias of '" ++ a.canonicalSubjectId ++ "' — its memories " ++
  "live under the canonical subject; query the canonical id or pass " ++
  "subject_alias so the server resolves it"

/-- `warnings`. -/
def warningsOf (store : Store) (request : ContextRequest) (p : Packing) : List String :=
  let empty := p.facts.isEmpty && p.episodes.isEmpty
  let fragmented := if empty then fragmentationAlias store request.scope else none
  let blocked := p.decisions.countP fun d ↦ d.reasonCode = .conflictOpen
  let disputed := p.decisions.countP fun d ↦
    d.reasonCode = .conflictDisputed ∧ d.action = .included
  (fragmented.map (fragmentationWarning request.scope)).toList ++
  (if blocked = 0 then [] else
    ["open_conflict: " ++ toString blocked ++ " fact(s) hidden pending conflict resolution"]) ++
  (if disputed = 0 then [] else
    ["open_conflict: " ++ toString disputed ++ " fact(s) served with an unresolved " ++
      "conflicting value alongside them — apply the most recent " ++
      "'valid from' date to determine which is current"]) ++
  request.extraWarnings

/-- `overhead_tokens`: the paragraphs the rendered block adds. -/
def overheadTokens (p : Packing) : Nat :=
  if p.facts.isEmpty && p.episodes.isEmpty then 0
  else
    estimateProseTokens header + estimateProseTokens wrapper +
    (if p.episodes.isEmpty then 0 else estimateProseTokens episodesHeader) +
    (if p.contestedCharged then estimateProseTokens contestedInstructions else 0)

/-- `packet`. -/
def packetOf (reader : Reader) (store : Store) (request : ContextRequest) (p : Packing) :
    ContextPacket :=
  let warnings := warningsOf store request p
  { overheadTokens := overheadTokens p
    facts := p.facts
    episodes := p.episodes
    warnings := warnings
    status := if warnings = [] then .ok else .degraded
    emptyReason :=
      if 0 < reader.recallMaxDistance ∧ p.facts.isEmpty ∧ p.episodes.isEmpty ∧
          ∃ d ∈ p.decisions, d.reasonCode = .belowRelevanceFloor then
        some .noRelevantMemory
      else none }

/-! ## The call -/

/-- The rows that are ranked, and the decisions made before ranking. -/
def gatedRows (reader : Reader) (store : Store) (request : ContextRequest) :
    List PoolRow × List Decision :=
  let conflicts := store.ledger.openConflictSets request.scope
  let rows := factRows reader request store.ledger
  let quarantined := quarantinedIds conflicts
  let held := rows.filter fun row ↦ row.fact.id ∈ quarantined
  let retrieved := (rows.filter fun row ↦ row.fact.id ∉ quarantined).map PoolRow.fact ++
    (episodeRows reader request store).map PoolRow.episode
  (retrieved.filter fun row ↦ ¬ BelowRelevanceFloor reader row,
    held.map (fun row ↦ ⟨.fact row.fact.id, .blocked, .conflictOpen⟩) ++
    (quarantinedRows store.ledger conflicts).map (fun f ↦ ⟨.fact f.id, .blocked, .conflictOpen⟩) ++
    (retrieved.filter fun row ↦ BelowRelevanceFloor reader row).map
      fun row ↦ ⟨row.id, .excluded, .belowRelevanceFloor⟩)

/-- What the packing loop of a call looks up. -/
def packingCall (reader : Reader) (store : Store) (request : ContextRequest) : PackingCall :=
  let conflicts := store.ledger.openConflictSets request.scope
  { reader := reader
    now := request.now reader
    budgetTokens := request.budgetTokens.toNat
    contestedConflict := contestedConflict conflicts
    contestedRow := contestedRow store.ledger conflicts
      ((factRows reader request store.ledger).map (·.fact.id)) }

/-- `build_context`. -/
def buildContext (reader : Reader) (store : Store) (request : ContextRequest) :
    Except ContextError BuiltContext := do
  if request.budgetTokens ≤ 0 then throw .budgetExceeded
  let (survivors, decisions) := gatedRows reader store request
  let pool ← rankPool reader request.query survivors
  let packed := pack (packingCall reader store request) decisions
    (rerankPool reader request.query pool)
  pure
    { packet := packetOf reader store request packed
      tokenCount := packed.tokenCount
      decisions := packed.decisions }

/-! ## The pool of a call -/

section

variable (reader : Reader) (store : Store) (request : ContextRequest)

/-- The pool in the order it is packed. -/
def packedPool : List Ranked :=
  match rankPool reader request.query (gatedRows reader store request).1 with
  | .ok pool => rerankPool reader request.query pool
  | .error _ => []

/-- The pool, packed. -/
def packedContext : Packing :=
  pack (packingCall reader store request) (gatedRows reader store request).2
    (packedPool reader store request)

/-- A call with a budget succeeds. -/
theorem buildContext_eq (h : 0 < request.budgetTokens) :
    buildContext reader store request = .ok
      { packet := packetOf reader store request (packedContext reader store request)
        tokenCount := (packedContext reader store request).tokenCount
        decisions := (packedContext reader store request).decisions } := by
  obtain ⟨pool, hpool, -⟩ := rankPool_perm reader request.query (gatedRows reader store request).1
  rw [buildContext, if_neg (not_le.mpr h), packedContext, packedPool, hpool]
  dsimp only
  rw [hpool]
  rfl

theorem packedPool_subperm :
    List.Subperm ((packedPool reader store request).map Ranked.row)
      (gatedRows reader store request).1 := by
  obtain ⟨pool, hpool, hperm⟩ :=
    rankPool_perm reader request.query (gatedRows reader store request).1
  rw [packedPool, hpool]
  exact (rerankPool_subperm reader request.query pool).trans hperm.subperm

/-- Under an aligned reranker the pool is what passed the gate. -/
theorem packedPool_perm {reader : Reader} (haligned : reader.RerankAligned) :
    ((packedPool reader store request).map Ranked.row).Perm (gatedRows reader store request).1 := by
  obtain ⟨pool, hpool, hperm⟩ :=
    rankPool_perm reader request.query (gatedRows reader store request).1
  rw [packedPool, hpool]
  exact (rerankPool_perm haligned request.query pool).trans hperm

/-- There is nothing to rank in a pool of one row. -/
theorem packedPool_eq_gatedRows {reader : Reader} (haligned : reader.RerankAligned)
    (h : (gatedRows reader store request).1.length ≤ 1) :
    (packedPool reader store request).map Ranked.row = (gatedRows reader store request).1 := by
  have hperm := packedPool_perm store request haligned
  rcases Nat.le_one_iff_eq_zero_or_eq_one.mp h with h | h
  · rw [List.length_eq_zero_iff.mp h] at hperm ⊢
    exact hperm.eq_nil
  · obtain ⟨row, hrow⟩ := List.length_eq_one_iff.mp h
    rw [hrow] at hperm ⊢
    exact List.perm_singleton.mp hperm

/-- A pool of one row is packed as it is. -/
theorem packedContext_eq_foldl {reader : Reader} (haligned : reader.RerankAligned)
    (h : (gatedRows reader store request).1.length ≤ 1) :
    packedContext reader store request = (gatedRows reader store request).1.foldl
      (Packing.packRow (packingCall reader store request))
      { decisions := (gatedRows reader store request).2 } := by
  rw [packedContext, pack, packedPool_eq_gatedRows store request haligned h]

end

/-! ## What a call serves -/

section

variable {reader : Reader} {store : Store} {request : ContextRequest} {built : BuiltContext}
  {db : Db} {scope : Scope} {id : FactId} {s : ConflictSet}

theorem contestedConflict_some (h : contestedConflict (db.openConflictSets scope) id = some s) :
    s ∈ db.conflictSets ∧ s.scope = scope ∧ s.status = .open ∧
      contestedConflictMinMembers ≤ s.factIds.length ∧ id ∈ s.factIds := by
  rw [contestedConflict] at h
  obtain ⟨hmem, hlength⟩ :=
    List.mem_filter.mp (List.mem_reverse.mp (List.mem_of_find?_eq_some h))
  obtain ⟨hs, hopen⟩ := List.mem_filter.mp hmem
  obtain ⟨hscope, ho⟩ := of_decide_eq_true hopen
  have hid := List.find?_some h
  exact ⟨hs, hscope, ho, of_decide_eq_true hlength, of_decide_eq_true hid⟩

theorem contestedRow_some {conflicts : List ConflictSet} {rowIds : List FactId} {f : Fact}
    (h : contestedRow db conflicts rowIds id = some f) : db.fact? id = some f := by
  rw [contestedRow] at h
  split at h
  · exact h
  · cases h

/-- A fact that is ranked is a candidate row outside quarantine. -/
theorem mem_gatedRows {row : FactRow} (h : .fact row ∈ (gatedRows reader store request).1) :
    row ∈ factRows reader request store.ledger ∧
      row.fact.id ∉ quarantinedIds (store.ledger.openConflictSets request.scope) := by
  rcases List.mem_append.mp (List.mem_filter.mp h).1 with h | h
  · obtain ⟨row', hrow, heq⟩ := List.mem_map.mp h
    obtain rfl := PoolRow.fact.inj heq
    obtain ⟨hrow, hq⟩ := List.mem_filter.mp hrow
    exact ⟨hrow, of_decide_eq_true hq⟩
  · obtain ⟨_, -, heq⟩ := List.mem_map.mp h
    cases heq

/-- A call that does not fail packs rows that passed the gate. -/
theorem buildContext_eq_ok (h : buildContext reader store request = .ok built) :
    0 < request.budgetTokens ∧ ∃ pool : List Ranked,
      (∀ a ∈ pool, a.row ∈ (gatedRows reader store request).1) ∧
      ∃ packed, packed = pack (packingCall reader store request)
          (gatedRows reader store request).2 pool ∧
        built = ⟨packetOf reader store request packed, packed.tokenCount, packed.decisions⟩ := by
  rw [buildContext] at h
  split at h
  · cases h
  · next hbudget =>
    obtain ⟨pool, hpool, h⟩ := Control.bind_eq_ok.mp h
    refine ⟨not_le.mp hbudget, _, fun a ha ↦ ?_, _, rfl, (Except.ok.inj h).symm⟩
    obtain ⟨b, hb, hrow⟩ := mem_rerankPool ha
    exact hrow ▸ mem_rankPool hpool hb

/-- The facts of a packet are the ones that were packed. -/
theorem buildContext_facts (h : buildContext reader store request = .ok built) :
    built.packet.facts = (packedContext reader store request).facts := by
  have hbuilt := buildContext_eq reader store request (buildContext_eq_ok h).1
  rw [Except.ok.inj (h.symm.trans hbuilt), packetOf]

end

end Haki
