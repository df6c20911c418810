import Haki.Context.Pool

/-!
# Packing

The loop that fills a packet from the ranked pool under the token budget.  An
item is built and printed first and charged for its line.  A packed fact of a
two-sided conflict is followed by the other members of its set, which are
loaded by primary key alone.
-/

namespace Haki

open Data

/-! ## Items -/

/-- `volatility_horizon`, in microseconds. -/
def volatilityHorizon (reader : Reader) : Volatility → Option Int
  | .stable => none
  | .slow => some (reader.volatilityHorizonSlowDays * microsPerDay)
  | .volatile => some (reader.volatilityHorizonVolatileDays * microsPerDay)
  | .ephemeral => some (reader.volatilityHorizonEphemeralDays * microsPerDay)

/-- `_fact_freshness`. -/
def factFreshness (reader : Reader) (row : Fact) (now : Timestamp) : Freshness :=
  match volatilityHorizon reader row.volatility with
  | none => .current
  | some horizon =>
    if now - row.freshnessClock ≤ horizon then .current
    else if row.volatility = .slow then .unconfirmed else .stale

/-- `_packet_fact`, with its reference. -/
def packetFact (reader : Reader) (now : Timestamp) (ref : String) (row : Fact)
    (conflict : Option ConflictSet) : PacketFact where
  id := row.id
  ref := ref
  predicate := row.predicate
  value := row.value
  validFrom := row.validFrom.map reader.isoformat
  validFromShort := (row.validFrom.map reader.isoformat).bind shortTimestamp
  validFromRelative := row.validFrom.map (relativeToNow · now)
  validTo := row.validTo.map reader.isoformat
  qualifiers := row.qualifiers
  temporalRange := row.temporalRange
  observedAt := row.observedAt.map reader.isoformat
  observedAtRelative := row.observedAt.map (relativeToNow · now)
  autoReclassified := row.reclassifiedAt.isSome
  sourceEventIds := row.sourceEventIds
  factKind := row.factKind
  volatility := row.volatility
  lastConfirmed := reader.isoformat row.freshnessClock
  freshness := factFreshness reader row now
  originTrust := row.originTrust
  attributedTo := row.qualifiers.value? "attributed_to"
  conflictId := conflict.map ConflictSet.id

/-- `_packet_episode`. -/
def packetEpisode (reader : Reader) (now : Timestamp) (ref : String) (row : EpisodeRow) :
    PacketEpisode where
  eventId := row.chunk.id.event
  episodeId := row.chunk.id
  ref := ref
  kind := row.kind
  occurredAt := reader.isoformat row.chunk.occurredAt
  occurredAtShort := shortTimestamp (reader.isoformat row.chunk.occurredAt)
  occurredAtRelative := some (relativeToNow row.chunk.occurredAt now)
  excerpt := episodeRowExcerpt row
  contextNeighbor := false

/-- An item with the line it is printed as. -/
structure Printed (α : Type) where
  item : α
  line : String

/-! ## Decisions -/

/-- `action` of a decision. -/
inductive DecisionAction where
  | included | excluded | blocked
deriving DecidableEq, Repr

/-- `reason_code` of a decision. -/
inductive ReasonCode where
  | topScore | conflictDisputed | conflictOpen | belowRelevanceFloor | overBudget
  | overEpisodeBudget | forgotten
deriving DecidableEq, Repr

/-- One entry of the decision trace. -/
structure Decision where
  item : ItemId
  action : DecisionAction
  reasonCode : ReasonCode
deriving DecidableEq, Repr

/-! ## The loop -/

/-- What packing looks up, and the budget. -/
structure PackingCall where
  reader : Reader
  now : Timestamp
  budgetTokens : Nat
  /-- `contested_conflict_by_fact`. -/
  contestedConflict : FactId → Option ConflictSet
  /-- `contested_rows_by_id`. -/
  contestedRow : FactId → Option Fact

/-- The packet so far. -/
structure Packing where
  facts : List (Printed PacketFact) := []
  episodes : List (Printed PacketEpisode) := []
  packedFactIds : List FactId := []
  tokenCount : Nat := 0
  episodeTokenCount : Nat := 0
  episodesPacked : Nat := 0
  contestedCharged : Bool := false
  decisions : List Decision

namespace Packing

variable (call : PackingCall)

/-- A decision without effect on the packet. -/
def note (p : Packing) (item : ItemId) (action : DecisionAction) (reasonCode : ReasonCode) :
    Packing :=
  { p with decisions := p.decisions ++ [⟨item, action, reasonCode⟩] }

/-- The next fact, as it would be printed. -/
def printFact (p : Packing) (row : Fact) (conflict : Option ConflictSet) : Printed PacketFact :=
  let item := packetFact call.reader call.now ("F" ++ toString (p.facts.length + 1)) row conflict
  ⟨item, call.reader.renderFact item⟩

/-- The next episode, as it would be printed. -/
def printEpisode (p : Packing) (row : EpisodeRow) : Printed PacketEpisode :=
  let item := packetEpisode call.reader call.now ("E" ++ toString (p.episodes.length + 1)) row
  ⟨item, renderEpisode item⟩

/-- A printed fact enters the packet. -/
def addFact (p : Packing) (printed : Printed PacketFact) (reasonCode : ReasonCode) : Packing :=
  { p with
    facts := p.facts ++ [printed]
    packedFactIds := p.packedFactIds ++ [printed.item.id]
    tokenCount := p.tokenCount + estimateTokens printed.line
    decisions := p.decisions ++ [⟨.fact printed.item.id, .included, reasonCode⟩] }

/-- The instructions about contested facts are paid for. -/
def chargeContested (p : Packing) : Packing := { p with contestedCharged := true }

/-- One sibling of a packed fact, which is itself packed. -/
def packSibling (conflict : ConflictSet) (p : Packing) (siblingId : FactId) : Packing :=
  if siblingId ∈ p.packedFactIds then p
  else
    match call.contestedRow siblingId with
    | none => p
    | some sibling =>
      if sibling.status = .disabled ∨ sibling.status = .deleted then
        p.note (.fact siblingId) .blocked .forgotten
      else
        let printed := p.printFact call sibling (some conflict)
        if call.budgetTokens < p.tokenCount + estimateTokens printed.line then
          p.note (.fact siblingId) .excluded .overBudget
        else p.addFact printed .conflictDisputed

/-- One fact of the pool, and its siblings. -/
def packFact (p : Packing) (row : Fact) : Packing :=
  let conflict := call.contestedConflict row.id
  let printed := p.printFact call row conflict
  if call.budgetTokens < p.tokenCount + estimateTokens printed.line then
    p.note (.fact row.id) .excluded .overBudget
  else
    match conflict with
    | none => p.addFact printed .topScore
    | some conflict =>
      conflict.factIds.foldl (packSibling call conflict)
        (p.addFact printed .conflictDisputed).chargeContested

/-- One episode of the pool: from the second one on, episodes share half of the budget. -/
def packEpisode (p : Packing) (row : EpisodeRow) : Packing :=
  let printed := p.printEpisode call row
  let cost := estimateTokens printed.line
  if 0 < p.episodesPacked ∧ call.budgetTokens < 2 * (p.episodeTokenCount + cost) then
    p.note (.episode row.chunk.id) .excluded .overEpisodeBudget
  else if call.budgetTokens < p.tokenCount + cost then
    p.note (.episode row.chunk.id) .excluded .overBudget
  else
    { p with
      episodes := p.episodes ++ [printed]
      tokenCount := p.tokenCount + cost
      episodeTokenCount := p.episodeTokenCount + cost
      episodesPacked := p.episodesPacked + 1
      decisions := p.decisions ++ [⟨.episode row.chunk.id, .included, .topScore⟩] }

/-- One row of the pool. -/
def packRow (p : Packing) : PoolRow → Packing
  | .fact row => p.packFact call row.fact
  | .episode row => p.packEpisode call row

end Packing

/-- The packing loop. -/
def pack (call : PackingCall) (decisions : List Decision) (pool : List Ranked) : Packing :=
  (pool.map Ranked.row).foldl (Packing.packRow call) { decisions := decisions }

/-! ## Where the facts of a packet come from -/

/-- A packed fact is a row of the pool, or a sibling of one that is packed as well. -/
inductive Source (call : PackingCall) (rows : List PoolRow) (facts : List (Printed PacketFact))
    (item : PacketFact) : Prop where
  | row (ref : String) (row : FactRow) (mem : .fact row ∈ rows)
      (eq : item = packetFact call.reader call.now ref row.fact
        (call.contestedConflict row.fact.id))
  | sibling (ref : String) (row : FactRow) (conflict : ConflictSet) (siblingId : FactId)
      (sibling : Fact) (mem : .fact row ∈ rows)
      (packed : row.fact.id ∈ facts.map (·.item.id))
      (contested : call.contestedConflict row.fact.id = some conflict)
      (listed : siblingId ∈ conflict.factIds)
      (hydrated : call.contestedRow siblingId = some sibling)
      (other : siblingId ≠ row.fact.id)
      (served : ¬ (sibling.status = .disabled ∨ sibling.status = .deleted))
      (eq : item = packetFact call.reader call.now ref sibling (some conflict))

/-- Every packed fact has a source, and its id is remembered. -/
structure Packing.Sourced (call : PackingCall) (rows : List PoolRow) (p : Packing) : Prop where
  ids : p.packedFactIds = p.facts.map (·.item.id)
  facts : ∀ printed ∈ p.facts, Source call rows p.facts printed.item

section Sourced

variable {call : PackingCall} {rows : List PoolRow} {p : Packing}
  {facts facts' : List (Printed PacketFact)} {item : PacketFact} {printed : Printed PacketFact}

theorem Source.mono (h : Source call rows facts item) (hsub : facts ⊆ facts') :
    Source call rows facts' item := by
  cases h with
  | row ref row mem eq => exact .row ref row mem eq
  | sibling ref row conflict siblingId sibling mem packed contested listed hydrated other served eq =>
    exact .sibling ref row conflict siblingId sibling mem (List.map_subset _ hsub packed) contested
      listed hydrated other served eq

namespace Packing.Sourced

theorem note (h : p.Sourced call rows) (i : ItemId) (action : DecisionAction)
    (reasonCode : ReasonCode) : (p.note i action reasonCode).Sourced call rows :=
  ⟨h.ids, h.facts⟩

/-- A fact with a source may enter the packet. -/
theorem addFact (h : p.Sourced call rows) (hsource : Source call rows p.facts printed.item)
    (reasonCode : ReasonCode) : (p.addFact printed reasonCode).Sourced call rows := by
  have hsub : p.facts ⊆ p.facts ++ [printed] := List.subset_append_left _ _
  refine ⟨?_, fun other hother ↦ ?_⟩
  · simp [Packing.addFact, h.ids]
  · rcases List.mem_append.mp hother with hother | hother
    · exact (h.facts other hother).mono hsub
    · rw [List.mem_singleton.mp hother]
      exact hsource.mono hsub

/-- A sibling of a packed row keeps the sources, and the row packed. -/
theorem packSibling {row : FactRow} {conflict : ConflictSet} {siblingId : FactId}
    (h : p.Sourced call rows) (hrow : .fact row ∈ rows)
    (hcontested : call.contestedConflict row.fact.id = some conflict)
    (hlisted : siblingId ∈ conflict.factIds) (hpacked : row.fact.id ∈ p.packedFactIds) :
    (p.packSibling call conflict siblingId).Sourced call rows ∧
      row.fact.id ∈ (p.packSibling call conflict siblingId).packedFactIds := by
  rw [Packing.packSibling]
  split
  · exact ⟨h, hpacked⟩
  · next hnew =>
    split
    · exact ⟨h, hpacked⟩
    · next sibling hsibling =>
      split
      · exact ⟨h.note _ _ _, hpacked⟩
      · next hserved =>
        dsimp only
        split
        · exact ⟨h.note _ _ _, hpacked⟩
        · refine ⟨h.addFact ?_ _, List.mem_append_left _ hpacked⟩
          exact .sibling _ row conflict siblingId sibling hrow (h.ids ▸ hpacked) hcontested hlisted
            hsibling (fun heq ↦ hnew (heq ▸ hpacked)) hserved rfl

theorem packFact {row : FactRow} (h : p.Sourced call rows) (hrow : .fact row ∈ rows) :
    (p.packFact call row.fact).Sourced call rows := by
  rw [Packing.packFact]
  split
  · exact h.note _ _ _
  · have hsource : Source call rows p.facts
        (p.printFact call row.fact (call.contestedConflict row.fact.id)).item :=
      .row _ row hrow rfl
    split
    · exact h.addFact hsource _
    · next conflict hconflict =>
      set charged := (p.addFact (p.printFact call row.fact (call.contestedConflict row.fact.id))
        .conflictDisputed).chargeContested
      have hadd := h.addFact hsource .conflictDisputed
      have hcharged : charged.Sourced call rows := ⟨hadd.ids, hadd.facts⟩
      have hpacked : row.fact.id ∈ charged.packedFactIds :=
        List.mem_append_right _ (List.mem_singleton_self _)
      exact (List.foldlRecOn (motive := fun q : Packing ↦
        q.Sourced call rows ∧ row.fact.id ∈ q.packedFactIds) conflict.factIds _ ⟨hcharged, hpacked⟩
        fun q hq siblingId hlisted ↦ hq.1.packSibling hrow hconflict hlisted hq.2).1

theorem packEpisode (h : p.Sourced call rows) (row : EpisodeRow) :
    (p.packEpisode call row).Sourced call rows := by
  rw [Packing.packEpisode]
  split
  · exact h.note _ _ _
  · split
    · exact h.note _ _ _
    · exact ⟨h.ids, h.facts⟩

end Packing.Sourced

/-- **Sources.**  Every fact of a packet comes from the pool, or from the conflict set of a fact
that comes from the pool and is in the packet. -/
theorem pack_sourced (call : PackingCall) (decisions : List Decision) (pool : List Ranked) :
    (pack call decisions pool).Sourced call (pool.map Ranked.row) := by
  refine List.foldlRecOn (motive := Packing.Sourced call (pool.map Ranked.row)) _ _
    ⟨rfl, by rintro _ ⟨⟩⟩ fun p hp row hrow ↦ ?_
  cases row with
  | fact row => exact hp.packFact hrow
  | episode row => exact hp.packEpisode row

end Sourced

end Haki
