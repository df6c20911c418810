import Haki.Sample

/-!
# Where the pairs of a stored value come from

A supersede carries the keys it does not restate over from the fact it
replaces, and takes its origin from the last event alone.  In every run in
which no supersede carries a key over from a lower-ranked fact, every pair of a
stored value was asserted by an event of the fact's own origin.
-/

namespace Haki

open Data Control

variable {env : Env} {db db' : Db} {event : Event} {c c' : Candidate} {existing : Option Fact}
  {row : Fact} {e : Effect}

/-- In the run, `c` was applied as a candidate of `event`: the two meet whatever all applied
candidates of the run meet. -/
def Asserted (env : Env) (ops : List Op) (event : Event) (c : Candidate) : Prop :=
  ∀ A : Event → Candidate → Prop, RunMeets env (fun _ event _ c ↦ A event c) .empty ops → A event c

/-- Every candidate a run applies is asserted in it. -/
theorem runMeets_asserted (env : Env) (ops : List Op) :
    RunMeets env (fun _ event _ c ↦ Asserted env ops event c) .empty ops :=
  runMeets_of_forall_meets
    (C := fun (A : { A : Event → Candidate → Prop //
      RunMeets env (fun _ event _ c ↦ A event c) .empty ops }) _ event _ c ↦ A.1 event c)
    (fun _ _ _ _ h A hA ↦ h ⟨A, hA⟩) fun A ↦ A.2

/-- The candidate replaces a fact of a lower rank and carries one of its keys over. -/
def CarriesUpward (env : Env) (event : Event) (db : Db) (c : Candidate) : Prop :=
  ∃ c' old, (matchCandidate env db c (candidateEmbedding env c) event).1 = .against c' (some old) ∧
    c'.action = .supersede ∧ old.originTrust.rank < event.originTrust.rank ∧
    ∃ entry ∈ old.value, entry.2 ≠ .null ∧ c'.value.value? entry.1 = none

instance (env : Env) (event : Event) (db : Db) (c : Candidate) :
    Decidable (CarriesUpward env event db c) :=
  Match.decidableAgainst _ _

/-- Every pair of the fact was asserted by an event of its origin, and a third party's fact says
who said it. -/
structure Fact.Sourced (A : Event → Candidate → Prop) (f : Fact) : Prop where
  pairs : ∀ entry ∈ f.value, ∃ event c, A event c ∧ event.originTrust = f.originTrust ∧
    entry ∈ c.value
  attributed : f.originTrust = .thirdParty → (f.qualifiers.value? "attributed_to").isSome

theorem Fact.Sourced.of_birth {A : Event → Candidate → Prop} {f g : Fact} (h : f.Sourced A)
    (hb : g.birth = f.birth) : g.Sourced A := by
  have hv : g.value = f.value := (congrArg Fact.value hb : g.birth.value = f.birth.value)
  have ht : g.originTrust = f.originTrust :=
    (congrArg Fact.originTrust hb : g.birth.originTrust = f.birth.originTrust)
  have hq : g.qualifiers = f.qualifiers :=
    (congrArg Fact.qualifiers hb : g.birth.qualifiers = f.birth.qualifiers)
  exact ⟨by rw [hv, ht]; exact h.pairs, by rw [ht, hq]; exact h.attributed⟩

/-- A pair of the stored value is the candidate's, or is carried over from the fact it replaces. -/
theorem mem_storedValue {entry : String × PyJson} (h : entry ∈ storedValue c existing event) :
    entry ∈ c.value ∨ ∃ old, existing = some old ∧ c.action = .supersede ∧
      ¬ HeldBack event existing ∧ entry ∈ old.value ∧ entry.2 ≠ .null ∧
        c.value.value? entry.1 = none := by
  rw [storedValue] at h
  split at h
  · exact .inl h
  · next hheld =>
    rw [carryForward, inheritedFrom] at h
    by_cases hact : c.action = .supersede
    · rw [if_pos hact] at h
      cases existing with
      | none => exact .inl h
      | some old =>
        have hnull : entry.2 ≠ .null := of_decide_eq_true (Table.mem_filter.mp h).2
        rcases Dict.mem_merge (Dict.mem_dropNulls h) with h | ⟨h, hnone⟩
        · exact .inl h
        · exact .inr ⟨old, rfl, hact, hheld, h, hnull, hnone⟩
    · rw [if_neg hact] at h
      exact .inl h

/-- The row of a candidate that carries nothing upward is sourced. -/
theorem Adjudicated.sourced {A : Event → Candidate → Prop}
    (hadj : Adjudicated env db event c c' existing row e)
    (hm : (matchCandidate env db c (candidateEmbedding env c) event).1 = .against c' existing)
    (h : ∀ f ∈ db.facts, f.Sourced A) (hA : A event c) (hC : ¬ CarriesUpward env event db c) :
    row.Sourced A := by
  have hvalue : c'.value = c.value := by
    rcases hadj.candidate with rfl | rfl <;> rfl
  refine ⟨fun entry hentry ↦ ?_, fun ht ↦ ?_⟩
  · rw [hadj.value] at hentry
    rw [hadj.originTrust]
    rcases mem_storedValue hentry with hentry | ⟨old, rfl, hact, hheld, hentry, hnull, hnone⟩
    · exact ⟨event, c, hA, rfl, hvalue ▸ hentry⟩
    · -- The replaced fact ranks neither above the event, nor below it.
      have hle : old.originTrust.rank ≤ event.originTrust.rank :=
        not_lt.mp fun hlt ↦ hheld (.inl ⟨old, rfl, hlt⟩)
      have hge : event.originTrust.rank ≤ old.originTrust.rank :=
        not_lt.mp fun hlt ↦ hC ⟨c', old, hm, hact, hlt, entry, hentry, hnull, hnone⟩
      rw [← OriginTrust.rank_injective (le_antisymm hle hge)]
      exact (h old (hadj.active old rfl).1).pairs entry hentry
  · rw [hadj.qualifiers, attributed, if_pos (hadj.originTrust ▸ ht), Dict.value?_set, if_pos rfl]
    rfl

/-- Every fact is sourced in every run of consolidations that carries nothing upward. -/
theorem sourced_invariant (env : Env) (A : Event → Candidate → Prop) :
    Invariant env Op.IsConsolidation
      (fun env event db c ↦ A event c ∧ ¬ CarriesUpward env event db c)
      fun db ↦ ∀ f ∈ db.facts, f.Sourced A where
  empty := by rintro _ ⟨⟩
  frame db events traces h := h
  candidate now event db c result db' result' hu h hC ha := by
    intro f' hf'
    rcases applyCandidate_born hu ha hf' with ⟨f, hf, hb⟩ | ⟨c', existing, row, e, hm, hadj, rfl⟩
    · exact (h f hf).of_birth hb
    · exact (hadj.sourced hm h hC.1 hC.2).of_birth (Fact.birth_of_content (e.onRow_content row))
  other db op db' hop hallowed := absurd hallowed hop

/-- **Provenance.**  In every run of consolidations in which no supersede carries a key over from a
lower-ranked fact, every pair of every fact was asserted by an event that ranks at least as high
as the fact, and by one that is no third party if the fact carries no attribution. -/
theorem pairs_are_sourced (env : Env) (ops : List Op) (hops : ∀ op ∈ ops, op.IsConsolidation)
    (hC : RunMeets env (fun env event db c ↦ ¬ CarriesUpward env event db c) .empty ops) :
    ∀ f ∈ (runOps env .empty ops).facts, ∀ entry ∈ f.value,
      (∃ event c, Asserted env ops event c ∧ f.originTrust.rank ≤ event.originTrust.rank ∧
        entry ∈ c.value) ∧
      (f.qualifiers.value? "attributed_to" = none →
        ∃ event c, Asserted env ops event c ∧ event.originTrust ≠ .thirdParty ∧
          entry ∈ c.value) := by
  have hboth : RunMeets env (fun env event db c ↦ Asserted env ops event c ∧
      ¬ CarriesUpward env event db c) .empty ops :=
    runMeets_of_forall_meets (C := fun (i : Bool) env event db c ↦
        match i with
        | true => Asserted env ops event c
        | false => ¬ CarriesUpward env event db c)
      (fun _ _ _ _ h ↦ ⟨h true, h false⟩) fun i ↦ by
        cases i with
        | true => exact runMeets_asserted env ops
        | false => exact hC
  intro f hf entry hentry
  have hsourced := ((sourced_invariant env (Asserted env ops)).run hops hboth).2 f hf
  obtain ⟨event, c, hA, ht, hmem⟩ := hsourced.pairs entry hentry
  refine ⟨⟨event, c, hA, ht ▸ le_rfl, hmem⟩, fun hnone ↦ ⟨event, c, hA, fun h ↦ ?_, hmem⟩⟩
  have := hsourced.attributed (ht.symm.trans h)
  rw [hnone] at this
  cases this

/-- The subject describes a trip, and updates one half of it. -/
def Sample.ownTrip : List Op :=
  Sample.observe (Sample.event 1 .trusted)
      [{ Sample.create "trip" "planned" with
        value := (Sample.entry "status" "planned").set "city" (.str "Lyon") }] ++
    Sample.observe (Sample.event 2 .trusted)
      [{ Sample.supersede "trip" "booked" with value := Sample.entry "status" "booked" }]

/-- The half that is carried over into the new fact is the subject's own word. -/
theorem pairs_are_sourced_trip :
    ∃ f ∈ (runOps .sample .empty Sample.ownTrip).facts, f.supersedesId.isSome ∧
      ∃ entry ∈ f.value, entry = ("city", .str "Lyon") ∧
        (∃ event c, Asserted .sample Sample.ownTrip event c ∧
          f.originTrust.rank ≤ event.originTrust.rank ∧ entry ∈ c.value) ∧
        ∃ event c, Asserted .sample Sample.ownTrip event c ∧ event.originTrust ≠ .thirdParty ∧
          entry ∈ c.value := by
  have h : ∃ f ∈ (runOps .sample .empty Sample.ownTrip).facts, f.supersedesId.isSome ∧
      f.qualifiers.value? "attributed_to" = none ∧
        ∃ entry ∈ f.value, entry = ("city", .str "Lyon") := by decide +kernel
  obtain ⟨f, hf, hnew, hnone, entry, hentry, hcity⟩ := h
  obtain ⟨hranked, hown⟩ := pairs_are_sourced .sample Sample.ownTrip
    (by simp [Sample.ownTrip, Sample.observe, Op.IsConsolidation]) (by decide +kernel) f hf entry
    hentry
  exact ⟨f, hf, hnew, entry, hentry, hcity, hranked, hown hnone⟩

/-- A third party describes a trip, and the subject updates one half of it. -/
def Sample.trip : List Op :=
  Sample.observe (Sample.event 1 .thirdParty)
      [{ Sample.create "trip" "planned" with
        value := (Sample.entry "status" "planned").set "city" (.str "Lyon") }] ++
    Sample.observe (Sample.event 2 .trusted)
      [{ Sample.supersede "trip" "booked" with value := Sample.entry "status" "booked" }]

/-- The other half is now the subject's own word: it is stored in a trusted fact that names no
third party, although only the third party said it. -/
theorem third_party_pair_unattributed :
    (∀ op ∈ Sample.trip, op.IsConsolidation) ∧ ∃ f ∈ (runOps .sample .empty Sample.trip).facts,
      f.qualifiers.value? "attributed_to" = none ∧ ∃ entry ∈ f.value,
        ∀ event c, Asserted .sample Sample.trip event c → entry ∈ c.value →
          event.originTrust = .thirdParty ∧ event.originTrust.rank < f.originTrust.rank := by
  refine ⟨by simp [Sample.trip, Sample.observe, Op.IsConsolidation], ?_⟩
  have h : ∃ f ∈ (runOps .sample .empty Sample.trip).facts,
      f.qualifiers.value? "attributed_to" = none ∧ ∃ entry ∈ f.value,
        RunMeets .sample (fun _ event _ c ↦ entry ∈ c.value →
          event.originTrust = .thirdParty ∧ event.originTrust.rank < f.originTrust.rank)
          .empty Sample.trip := by decide +kernel
  obtain ⟨f, hf, hnone, entry, hentry, hmeets⟩ := h
  exact ⟨f, hf, hnone, entry, hentry, fun event c hA ↦ hA _ hmeets⟩

end Haki
