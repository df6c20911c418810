import Haki.Sample

/-!
# When a serialized write meets the partial unique index

A candidate is compared with the fact found under its target predicate, an
alias or an embedding neighbour, and is activated under its own predicate.
`applyCandidate_keepsUnique_iff` says exactly when that is safe: unless the
slot the new row takes is held by an active state fact other than the one the
candidate replaces.
-/

namespace Haki

open Data Control

variable {env : Env} {db : Db} {c : Candidate} {embedding : Embedding} {event : Event}

/-- Applying the candidate is never refused by the index, and leaves a ledger that meets it. -/
def KeepsUnique (env : Env) (db : Db) (c : Candidate) (embedding : Embedding) (event : Event) :
    Prop :=
  ∀ result, applyCandidate env db c embedding event result ≠ .error .uniqueViolation ∧
    ∀ db' result', applyCandidate env db c embedding event result = .ok (db', result') →
      db'.UniqueActive

/-- The candidate would be activated, as a state, in a slot that an active state fact other than
the one it replaces holds. -/
def SlotClash (env : Env) (db : Db) (c : Candidate) (embedding : Embedding) (event : Event) : Prop :=
  ∃ c' existing, (matchCandidate env db c embedding event).1 = .against c' existing ∧
    ¬ HeldBack event existing ∧ DatesParse env c' existing event ∧
    (existing = none ∨ c'.action = .supersede) ∧ memoryFormOf c' existing = .state ∧
    ∃ g ∈ db.facts, g.Current ∧
      g.HasKey event.scope c'.predicate (attributed c'.qualifiers event) ∧
      ∀ old ∈ existing, g.id ≠ old.id

instance : Decidable (SlotClash env db c embedding event) :=
  Match.decidableAdjudicated _ _

/-! ## The index after an effect that activates a state -/

/-- Inserting a current row next to others meets the index exactly when no other current fact
has its slot. -/
theorem Db.UniqueActive.insertFact_iff (hu : db.UniqueActive) {row : Fact}
    (hf : db.facts.Fresh row) (hc : row.Current) :
    (db.insertFact row).UniqueActive ↔ ¬ ∃ g ∈ db.facts, g.Current ∧ g.SameSlot row := by
  constructor
  · rintro hu' ⟨g, hg, hgc, hs⟩
    have hne : g.id ≠ row.id := hf g hg
    exact hne (hu' g ((Db.mem_insertFact hf).mpr (.inl hg)) hgc row
      ((Db.mem_insertFact hf).mpr (.inr rfl)) hc hs)
  · intro hn f₁ h₁ c₁ f₂ h₂ c₂ hs
    rcases (Db.mem_insertFact hf).mp h₁ with m₁ | rfl <;>
      rcases (Db.mem_insertFact hf).mp h₂ with m₂ | rfl
    · exact hu f₁ m₁ c₁ f₂ m₂ c₂ hs
    · exact absurd ⟨f₁, m₁, c₁, hs⟩ hn
    · exact absurd ⟨f₂, m₂, c₂, hs.symm⟩ hn
    · rfl

theorem unique_accept_iff (hu : db.UniqueActive) {row : Fact} (hf : db.facts.Fresh row) :
    (Effect.apply env event db row .accept).UniqueActive ↔
      ¬ (row.memoryForm = .state ∧ ∃ g ∈ db.facts, g.Current ∧ g.SameSlot row) := by
  rw [apply_accept]
  have hf' : db.facts.Fresh (row.moveTo .active env.now) := hf
  by_cases hform : row.memoryForm = .state
  · rw [hu.insertFact_iff hf' ⟨rfl, hform⟩]
    exact not_congr ⟨fun h ↦ ⟨hform, h⟩, And.right⟩
  · exact ⟨fun _ h ↦ hform h.1, fun _ ↦ hu.insertFact hf' fun h ↦ hform h.2⟩

theorem unique_replace_iff (hu : db.UniqueActive) {row old : Fact} (hf : db.facts.Fresh row) :
    (Effect.apply env event db row (.replace old)).UniqueActive ↔
      ¬ (row.memoryForm = .state ∧
        ∃ g ∈ db.facts, g.Current ∧ g.SameSlot row ∧ g.id ≠ old.id) := by
  have hclosed := fun f : Fact ↦ f.closedAt_id (closingTime old event) env.now
  have hf' : (db.updateFact old.id (·.closedAt (closingTime old event) env.now)).facts.Fresh
      ({ row with supersedesId := some old.id }.moveTo .active env.now) :=
    Db.fresh_updateFact hclosed hf
  have hu' : (db.updateFact old.id
      (·.closedAt (closingTime old event) env.now)).UniqueActive :=
    hu.updateFact hclosed fun _ _ _ h ↦ by cases h.1
  rw [apply_replace]
  by_cases hform : row.memoryForm = .state
  · rw [hu'.insertFact_iff hf' ⟨rfl, hform⟩]
    refine not_congr ⟨?_, ?_⟩
    · rintro ⟨g, hg, hc, hs⟩
      obtain ⟨a, ha, rfl⟩ := (Db.mem_updateFact hclosed).mp hg
      split at hc
      · cases hc.1
      · next hne =>
        rw [if_neg hne] at hs
        exact ⟨hform, a, ha, hc, hs, hne⟩
    · rintro ⟨-, g, hg, hc, hs, hne⟩
      exact ⟨g, (Db.mem_updateFact hclosed).mpr ⟨g, hg, if_neg hne⟩, hc, hs⟩
  · exact ⟨fun _ h ↦ hform h.1, fun _ ↦ hu'.insertFact hf' fun h ↦ hform h.2⟩

/-- Every other effect writes no active state fact. -/
theorem unique_other (hu : db.UniqueActive) {row : Fact} (hf : db.facts.Fresh row)
    (hs : row.status = .candidate) {e : Effect} (ha : e ≠ .accept) (hr : ∀ old, e ≠ .replace old) :
    (e.apply env event db row).UniqueActive := by
  cases e with
  | accept => exact absurd rfl ha
  | replace old => exact absurd rfl (hr old)
  | overflow old conflict other => exact (flush_eq_ok.mp (flush_apply_overflow hu hf)).2
  | _ => exact (flush_eq_ok.mp (flush_apply_candidate hu hf hs (fun _ ↦ rfl) rfl)).2

/-! ## The characterisation -/

/-- The effects that activate a state next to other facts, in the words of `SlotClash`. -/
theorem effectOf_activates {c' : Candidate} {existing : Option Fact} {memoryForm : MemoryForm}
    (hmatch : Matched db event c c' existing) (hheld : ¬ HeldBack event existing)
    (hact : existing = none ∨ c'.action = .supersede) :
    effectOf db c' existing memoryForm event =
      .ok (match existing with
        | none => .accept
        | some old => .replace old) := by
  cases existing with
  | none => simp [effectOf, hheld]
  | some old =>
    have hact := hact.resolve_left (by simp)
    simp [effectOf, hheld, hact]

/-- Deciding an effect is never refused by the index. -/
theorem effectOf_error_ne {c' : Candidate} {existing : Option Fact} {memoryForm : MemoryForm}
    {e : LedgerError} (h : effectOf db c' existing memoryForm event = .error e) :
    e ≠ .uniqueViolation := by
  rcases effectOf_cases db event c' existing memoryForm with
    ⟨-, he⟩ | ⟨-, -, he⟩ | ⟨_, -, -, -, he⟩ | ⟨old, hc⟩
  · cases he.symm.trans h
  · cases he.symm.trans h
  · cases he.symm.trans h
  · rw [hc.effectOf] at h
    obtain ⟨_, -, ⟨-, rfl⟩ | ⟨_, _, -, -, -, rfl⟩⟩ := contradictionOf_eq_error h
    · simp
    · simp

/-- The effect of an adjudicated candidate meets the index, unless slots clash. -/
theorem unique_apply_iff (hu : db.UniqueActive) {c' : Candidate} {existing : Option Fact}
    {row : Fact} {e : Effect} (hmatch : Matched db event c c' existing)
    (hrow : candidateRow env db c' existing embedding event = .ok row)
    (he : effectOf db c' existing row.memoryForm event = .ok e) :
    (e.apply env event db row).UniqueActive ↔
      ¬ (¬ HeldBack event existing ∧ (existing = none ∨ c'.action = .supersede) ∧
        memoryFormOf c' existing = .state ∧ ∃ g ∈ db.facts, g.Current ∧
          g.HasKey event.scope c'.predicate (attributed c'.qualifiers event) ∧
          ∀ old ∈ existing, g.id ≠ old.id) := by
  have hf := candidateRow_fresh hrow
  obtain ⟨range, observedAt, rfl⟩ := candidateRow_eq_ok hrow
  by_cases hcond : ¬ HeldBack event existing ∧ (existing = none ∨ c'.action = .supersede)
  · obtain ⟨hheld, hact⟩ := hcond
    rw [effectOf_activates hmatch hheld hact] at he
    obtain rfl := Except.ok.inj he
    cases existing with
    | none =>
      rw [unique_accept_iff hu hf]
      refine not_congr ⟨?_, ?_⟩
      · rintro ⟨hform, g, hg, hc, hs⟩
        exact ⟨hheld, hact, hform, g, hg, hc, hs, by rintro _ ⟨⟩⟩
      · rintro ⟨-, -, hform, g, hg, hc, hs, -⟩
        exact ⟨hform, g, hg, hc, hs⟩
    | some old =>
      rw [unique_replace_iff hu hf]
      refine not_congr ⟨?_, ?_⟩
      · rintro ⟨hform, g, hg, hc, hs, hne⟩
        exact ⟨hheld, hact, hform, g, hg, hc, hs, by rintro _ ⟨⟩; exact hne⟩
      · rintro ⟨-, -, hform, g, hg, hc, hs, hne⟩
        exact ⟨hform, g, hg, hc, hs, hne old rfl⟩
  · refine iff_of_true ?_ fun h ↦ hcond ⟨h.1, h.2.1⟩
    have hguard := effectOf_guard he
    by_cases haccept : e = .accept
    · -- Accepted next to a matched fact: only an occurrence is.
      subst haccept
      obtain ⟨hheld, hguard⟩ := hguard
      cases existing with
      | none => exact absurd ⟨hheld, .inl rfl⟩ hcond
      | some old =>
        obtain ⟨hact, hform⟩ := hguard old rfl
        have hcreate : c'.action = .create := by
          cases ha : c'.action with
          | create => rfl
          | supersede => exact absurd ha hact
        have hevent : old.memoryForm = .event := by
          by_contra hne
          exact hform.elim hne (hmatch.differs hcreate old rfl hne)
        rw [unique_accept_iff hu hf]
        rintro ⟨hstate, -⟩
        cases hstate.symm.trans hevent
    · refine unique_other hu hf rfl haccept ?_
      rintro old rfl
      obtain ⟨hheld, -, hact⟩ := hguard
      exact hcond ⟨hheld, .inr hact⟩

/-- **Uniqueness of the current value.**  Under the subject lock, applying a candidate meets the
partial unique index exactly when it does not clash on its slot. -/
theorem applyCandidate_keepsUnique_iff (hu : db.UniqueActive) :
    KeepsUnique env db c embedding event ↔ ¬ SlotClash env db c embedding event := by
  cases hm : (matchCandidate env db c embedding event).1 with
  | duplicate f =>
    obtain ⟨aliases, heq⟩ := applyCandidate_duplicate hm
    refine iff_of_true (fun result ↦ ⟨?_, fun db' result' h ↦ applyCandidate_unique hu h⟩) ?_
    · rw [heq result]
      exact fun h ↦ by cases h
    · rintro ⟨c', existing, hm', -⟩
      cases hm.symm.trans hm'
  | against c' existing =>
    obtain ⟨aliases, heq⟩ := applyCandidate_against hu hm
    have hmatch := matchCandidate_against hm
    -- The clash is about this matched fact: matching is a function.
    have hclash : SlotClash env db c embedding event ↔
        ¬ HeldBack event existing ∧ DatesParse env c' existing event ∧
          (existing = none ∨ c'.action = .supersede) ∧ memoryFormOf c' existing = .state ∧
          ∃ g ∈ db.facts, g.Current ∧
            g.HasKey event.scope c'.predicate (attributed c'.qualifiers event) ∧
            ∀ old ∈ existing, g.id ≠ old.id := by
      constructor
      · rintro ⟨c'', existing', hm', h⟩
        obtain ⟨rfl, rfl⟩ := Match.against.inj (hm.symm.trans hm')
        exact h
      · exact fun h ↦ ⟨c', existing, hm, h⟩
    rw [hclash]
    rcases candidateRow_cases env db c' existing embedding event with ⟨hd, row, hrow⟩ | ⟨hd, hrow⟩
    · cases he : effectOf db c' existing row.memoryForm event with
      | error e =>
        refine iff_of_true (fun result ↦ ?_) fun h ↦ ?_
        · rw [heq result, hrow, ok_bind, he]
          exact ⟨fun h ↦ effectOf_error_ne he (Except.error.inj h), fun _ _ h ↦ by cases h⟩
        · cases he.symm.trans (effectOf_activates hmatch h.1 h.2.2.1)
      | ok e =>
        have hiff := unique_apply_iff hu hmatch hrow he
        constructor
        · rintro h ⟨hheld, -, hact, hform, hg⟩
          refine (h {}).1 ?_
          rw [heq, hrow, ok_bind, he, ok_bind, flush, if_neg]
          · rfl
          · exact fun hu' ↦ hiff.mp hu' ⟨hheld, hact, hform, hg⟩
        · intro h result
          have hu' : ({ e.apply env event db row with predicateAliases := aliases } :
              Db).UniqueActive := by
            refine hiff.mpr ?_
            rintro ⟨hheld, hact, hform, hg⟩
            exact h ⟨hheld, hd, hact, hform, hg⟩
          rw [heq, hrow, ok_bind, he, ok_bind, flush_of_unique hu']
          refine ⟨fun h ↦ (by cases h), fun db' result' h ↦ ?_⟩
          obtain ⟨rfl, -⟩ := Prod.mk.inj (Except.ok.inj h)
          exact hu'
    · refine iff_of_true (fun result ↦ ?_) fun h ↦ hd h.2.1
      rw [heq result, hrow]
      exact ⟨fun h ↦ (by cases h), fun _ _ h ↦ (by cases h)⟩

namespace Sample

/-- The subject lives in Lyon, and its town is Nice. -/
def cityAndTown : Db :=
  runOps .sample .empty
    (observe (Sample.event 1 .trusted) [create "city" "Lyon", create "town" "Nice"])

/-- A candidate for `city` that declares that it replaces `town`. -/
def cityForTown : Candidate :=
  { supersede "city" "Paris" with supersedesPredicate := some "town" }

end Sample

/-- A candidate that replaces the city takes its slot; one that replaces the town clashes. -/
theorem applyCandidate_keepsUnique_cityAndTown :
    (∀ predicate ∈ ["city", "town"], ∃ f ∈ Sample.cityAndTown.facts, f.Current ∧
      f.predicate = predicate) ∧
    KeepsUnique .sample Sample.cityAndTown (Sample.supersede "city" "Paris")
      (candidateEmbedding .sample (Sample.supersede "city" "Paris")) (Sample.event 2 .trusted) ∧
    ¬ KeepsUnique .sample Sample.cityAndTown Sample.cityForTown
      (candidateEmbedding .sample Sample.cityForTown) (Sample.event 2 .trusted) := by
  have hu : Sample.cityAndTown.UniqueActive := by decide +kernel
  have hfree : ¬ SlotClash .sample Sample.cityAndTown (Sample.supersede "city" "Paris")
      (candidateEmbedding .sample (Sample.supersede "city" "Paris")) (Sample.event 2 .trusted) := by
    decide +kernel
  have hclash : SlotClash .sample Sample.cityAndTown Sample.cityForTown
      (candidateEmbedding .sample Sample.cityForTown) (Sample.event 2 .trusted) := by
    decide +kernel
  refine ⟨by decide +kernel, ?_, fun h ↦ ?_⟩
  · exact (applyCandidate_keepsUnique_iff hu).mpr hfree
  · exact (applyCandidate_keepsUnique_iff hu).mp h hclash

/-- A clash that consolidation reaches: `city` and `town` are both active, and a candidate for
`city` declares that it replaces `town`.  It would be activated next to the active `city`. -/
theorem serialized_write_refused :
    ∃ db c event, Reachable .sample Op.IsConsolidation db ∧ db.UniqueActive ∧
      applyCandidate .sample db c (candidateEmbedding .sample c) event {} =
        .error .uniqueViolation := by
  refine ⟨Sample.cityAndTown, Sample.cityForTown, Sample.event 2 .trusted,
    ⟨_, Sample.observe_isConsolidation, rfl⟩, by decide +kernel, ?_⟩
  exact failure?_eq_some.mp (by decide +kernel)

end Haki
