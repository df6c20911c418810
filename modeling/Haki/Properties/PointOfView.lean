import Haki.Context.Servable
import Haki.Sample

/-!
# The point of view

Candidate generation leaves out what is dated after `as_of`.  The siblings of a
contested fact are loaded by primary key, whatever their date.
-/

namespace Haki

open Data

/-- `coalesce(valid_from, recorded_from)`. -/
def Fact.date (f : Fact) : Timestamp := f.validFrom.getD f.recordedFrom

/-- Nothing in the packet is dated after an instant. -/
structure ContextPacket.Past (store : Store) (now : Timestamp) (packet : ContextPacket) : Prop where
  facts : ∀ printed ∈ packet.facts, ∀ f ∈ store.ledger.facts, f.id = printed.item.id → f.date ≤ now
  episodes : ∀ printed ∈ packet.episodes, ∀ c ∈ store.episodeChunks,
    c.id = printed.item.episodeId → c.occurredAt ≤ now

section

variable {reader : Reader} {store : Store} {request : ContextRequest} {built : BuiltContext}

/-- The episodes of a packet had happened. -/
theorem episodes_past (hbuilt : buildContext reader store request = .ok built) :
    ∀ printed ∈ built.packet.episodes, ∀ c ∈ store.episodeChunks,
      c.id = printed.item.episodeId → c.occurredAt ≤ request.now reader := by
  intro printed hprinted c hc hid
  obtain ⟨row, ref, hrow, hitem⟩ := episode_of_mem hbuilt hprinted
  obtain ⟨hchunk, -, -, hpast, -⟩ := mem_gatedRows_episode hrow
  have hsame : c.id = row.chunk.id := by
    rw [hid, hitem]
    rfl
  obtain rfl : c = row.chunk := Table.eq_of_key_eq hc hchunk hsame
  exact hpast

/-- **The point of view.**  No budget makes a call serve what is dated after `as_of` exactly when no
fact that passes the gate is contested with a fact that is. -/
theorem packet_past_iff (haligned : reader.RerankAligned) (store : Store)
    (request : ContextRequest) :
    (∀ budgetTokens built, buildContext reader store (request.withBudget budgetTokens) = .ok built →
      built.packet.Past store (request.now reader)) ↔
    ∀ f, Sibling reader store request f → f.date ≤ request.now reader := by
  have hranked (row : FactRow) (hrow : .fact row ∈ (gatedRows reader store request).1) :
      row.fact.date ≤ request.now reader := by
    obtain ⟨-, -, ⟨-, -, hdate⟩, -⟩ := mem_factRows (mem_gatedRows hrow).1
    exact hdate
  rw [← forall_packets_iff haligned hranked]
  constructor
  · intro h budgetTokens built hbuilt
    exact (h budgetTokens built hbuilt).facts
  · intro h budgetTokens built hbuilt
    have hepisodes := episodes_past hbuilt
    exact ⟨h budgetTokens built hbuilt, hepisodes⟩

end

/-! ## Samples -/

/-- The point of view between the two dates of a contested fact. -/
def Sample.before : ContextRequest := { Sample.request with asOf := some 1 }

/-- The point of view of the second date. -/
def Sample.after : ContextRequest := { Sample.request with asOf := some 2 }

/-- At the point of view of the second of two contested facts, both are served, and neither is dated
after it. -/
theorem packet_past_nice :
    (∃ f, Sibling .sample Sample.disputed Sample.after f) ∧
    ∀ budgetTokens built,
      buildContext .sample Sample.disputed (Sample.after.withBudget budgetTokens) = .ok built →
        built.packet.Past Sample.disputed 2 := by
  have hdates : ∀ f ∈ Sample.disputed.ledger.facts, f.date ≤ 2 := by decide +kernel
  obtain ⟨f, hrows, hid, hserved⟩ : ∃ f ∈ Sample.disputed.ledger.facts.rows,
      f.id = ⟨2, 0⟩ ∧ f.Served := by decide +kernel
  have hf : f ∈ Sample.disputed.ledger.facts := Table.mem_rows.mp hrows
  refine ⟨⟨f, sibling_of_ids ⟨1, 0⟩ (by decide +kernel) (by rw [hid]; decide +kernel) hf hserved⟩,
    (packet_past_iff Reader.sample_aligned Sample.disputed Sample.after).mpr fun g hg ↦ ?_⟩
  obtain ⟨row, s, -, -, -, hg, -⟩ := hg
  exact hdates g hg

/-- At the point of view of the first of two contested facts, the second one is served. -/
theorem future_sibling_served :
    ∃ budgetTokens built,
      buildContext .sample Sample.disputed (Sample.before.withBudget budgetTokens) = .ok built ∧
      ¬ built.packet.Past Sample.disputed 1 := by
  obtain ⟨f, hrows, hid, hserved, hdate⟩ : ∃ f ∈ Sample.disputed.ledger.facts.rows,
      f.id = ⟨2, 0⟩ ∧ f.Served ∧ f.date = 2 := by decide +kernel
  have hf : f ∈ Sample.disputed.ledger.facts := Table.mem_rows.mp hrows
  have hsibling : Sibling .sample Sample.disputed Sample.before f :=
    sibling_of_ids ⟨1, 0⟩ (by decide +kernel) (by rw [hid]; decide +kernel) hf hserved
  obtain ⟨budgetTokens, built, -, hbuilt, hfacts, -⟩ :=
    exists_budget Reader.sample_aligned Sample.disputed Sample.before
  obtain ⟨printed, hprinted, ref, conflict, hitem⟩ := hfacts f (.sibling hsibling)
  refine ⟨budgetTokens, built, hbuilt, fun hpast ↦ ?_⟩
  have hle := hpast.facts printed hprinted f hf (by rw [hitem]; rfl)
  rw [hdate] at hle
  exact absurd hle (by decide)

end Haki
