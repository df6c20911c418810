import Haki.Properties.Review

/-!
# Occurrences accumulate

An identity of the form `event` keeps every occurrence it is told of.  Its form
is known only once the candidate is matched; the duplicate check comes before
that, and skips the facts that are occurrences themselves.
`accumulates_iff` says that the rows the identity left behind as a state are
what keeps an occurrence from being added.
-/

namespace Haki

open Data Control

section

variable {env : Env} {db db' : Db} {event : Event} {c : Candidate} {embedding : Embedding}
  {f g : Fact}

/-! ## One more occurrence -/

/-- One active occurrence of the candidate's value is added, and no other fact changes its status,
value, validity or counter. -/
structure Accumulated (c : Candidate) (db db' : Db) : Prop where
  added : ∃ g ∈ db'.facts, g.status = .active ∧ g.memoryForm = .event ∧ g.value = c.value ∧
    ∀ f ∈ db'.facts, db.fact? f.id = none ↔ f = g
  kept : ∀ f ∈ db.facts, ∃ f' ∈ db'.facts, f'.id = f.id ∧ f'.status = f.status ∧
    f'.value = f.value ∧ f'.validTo = f.validTo ∧ f'.reinforcementCount = f.reinforcementCount

/-- Applying the candidate adds one occurrence. -/
def Accumulates (env : Env) (db : Db) (c : Candidate) (embedding : Embedding) (event : Event) :
    Prop :=
  ∀ result, ∃ db' result', applyCandidate env db c embedding event result = .ok (db', result') ∧
    Accumulated c db db'

/-- The identity has a row that is a state and has the candidate's value. -/
def LeftAsState (db : Db) (event : Event) (c : Candidate) : Prop :=
  ∃ g ∈ db.facts, g.Says event c ∧ g.memoryForm = .state ∧ g.status ≠ .deleted

instance (db : Db) (event : Event) (c : Candidate) : Decidable (LeftAsState db event c) :=
  inferInstanceAs (Decidable (∃ g ∈ db.facts, _))

/-- The duplicate check finds nothing but rows left as a state. -/
theorem findDuplicate_eq_none_iff_not_left :
    db.findDuplicate event.scope c.predicate c.value c.qualifiers = none ↔
      ¬ LeftAsState db event c := by
  rw [Db.findDuplicate_eq_none_iff, List.eq_nil_iff_forall_not_mem, LeftAsState, not_exists]
  refine forall_congr' fun g ↦ not_congr ?_
  rw [Db.mem_duplicates, Fact.Says]
  cases g.memoryForm with
  | state => simp only [ne_eq, reduceCtorEq, not_false_eq_true]; tauto
  | event => simp

/-- No fact has the id of a new row. -/
theorem Db.fact?_of_fresh (h : db.facts.Fresh g) : db.fact? g.id = none :=
  Table.get?_eq_none_iff.mpr h

/-! ## The two matches -/

/-- Without a duplicate, the candidate is adjudicated against the occurrence it resolves to. -/
theorem matchCandidate_event (hform : f.memoryForm = .event)
    (hresolve : (db.resolveExistingFact env event.scope c.targetPredicate c.qualifiers
      embedding).1 = some f)
    (hnone : db.findDuplicate event.scope c.predicate c.value c.qualifiers = none) :
    (matchCandidate env db c embedding event).1 = .against c (some f) := by
  rw [matchCandidate, hnone]
  dsimp only
  rw [matchTarget]
  simp only [hresolve, Option.some_or]
  rw [if_neg fun h ↦ h.2.1 hform]

/-- A row was added, so the candidate was no duplicate. -/
theorem Accumulated.not_duplicate (h : Accumulated c db db')
    (hids : ∀ f' ∈ db'.facts, ∃ f ∈ db.facts, f.id = f'.id) : False := by
  obtain ⟨g, hg, -, -, -, hnew⟩ := h.added
  obtain ⟨f, hf, hid⟩ := hids g hg
  have hfresh := (hnew g hg).mpr rfl
  rw [← hid, Db.fact?_of_mem hf] at hfresh
  cases hfresh

/-- A candidate that ends as a supersede of an active fact is held, or closes the fact. -/
theorem Adjudicated.not_accumulated {c₀ c' : Candidate} {row old : Fact} {e : Effect}
    {aliases : Table PredicateAlias} (h : Adjudicated env db event c₀ c' (some old) row e)
    (hact : c'.action = .supersede) :
    ¬ Accumulated c db { e.apply env event db row with predicateAliases := aliases } := by
  intro hacc
  obtain ⟨hold, -, hactive⟩ := h.active old rfl
  have hguard := h.guard
  cases e with
  | hold =>
    obtain ⟨g, hg, hstatus, -, -, hnew⟩ := hacc.added
    have hrow : row ∈ (Effect.apply env event db row .hold).facts :=
      (Effect.mem_apply h.fresh).mpr (.inr rfl)
    rw [← (hnew row hrow).mp (Db.fact?_of_fresh h.fresh), h.status] at hstatus
    cases hstatus
  | replace old' =>
    obtain rfl : old = old' := Option.some.inj hguard.2.1
    obtain ⟨f', hf', hid, hstatus, -⟩ := hacc.kept old hold
    rcases (Effect.mem_apply h.fresh).mp hf' with ⟨f, -, rfl⟩ | rfl
    · rw [Effect.onFact_id] at hid
      rw [Effect.onFact, if_pos hid, hactive] at hstatus
      cases hstatus
    · exact h.fresh old hold (hid.symm.trans (Effect.onRow_id env _ row))
  | accept => exact (hguard.2 old rfl).1 hact
  | openConflict | joinConflict | overflow =>
    obtain ⟨_, hcontra, -⟩ := hguard
    exact hcontra.create hact

/-- Accepting an occurrence adds it, and nothing else. -/
theorem accumulated_accept {row : Fact} {aliases : Table PredicateAlias}
    (hf : db.facts.Fresh row) (hform : row.memoryForm = .event) (hvalue : row.value = c.value) :
    Accumulated c db
      { Effect.apply env event db row .accept with predicateAliases := aliases } where
  added := by
    refine ⟨row.moveTo .active env.now, (Effect.mem_apply hf).mpr (.inr rfl), rfl, hform, hvalue,
      fun f hf' ↦ ?_⟩
    rcases (Effect.mem_apply hf).mp hf' with ⟨f, hmem, rfl⟩ | rfl
    · refine iff_of_false ?_ fun heq ↦ hf f hmem ?_
      · rw [Effect.onFact_id, Db.fact?_of_mem hmem]
        exact Option.some_ne_none f
      · exact (congrArg Fact.id heq : f.id = (row.moveTo .active env.now).id)
    · exact iff_of_true (Db.fact?_of_fresh hf) rfl
  kept := fun f hmem ↦ ⟨f, (Effect.mem_apply hf).mpr (.inl ⟨f, hmem, rfl⟩), rfl, rfl, rfl, rfl, rfl⟩

/-- **Occurrences accumulate.**  A candidate that resolves to an occurrence it may join adds one
exactly when its identity has left no state row with its value, and its dates can be read. -/
theorem accumulates_iff (hu : db.UniqueActive) (hcreate : c.action = .create)
    (hresolve : (db.resolveExistingFact env event.scope c.targetPredicate c.qualifiers
      embedding).1 = some f)
    (hform : f.memoryForm = .event) (hheld : ¬ HeldBack event (some f)) :
    Accumulates env db c embedding event ↔
      ¬ LeftAsState db event c ∧ DatesParse env c (some f) event := by
  rw [← findDuplicate_eq_none_iff_not_left]
  constructor
  · intro h
    obtain ⟨db', result', hok, hacc⟩ := h {}
    cases applyCandidate_applied hu hok with
    | counted => exact (hacc.not_duplicate fun f hf ↦ ⟨f, hf, rfl⟩).elim
    | reinforced =>
      refine (hacc.not_duplicate fun f' hf' ↦ ?_).elim
      obtain ⟨f, hf, rfl⟩ := mem_reinforced.mp hf'
      exact ⟨f, hf, by split <;> rfl⟩
    | written aliases c' existing row e hm hadj =>
      cases hd : db.findDuplicate event.scope c.predicate c.value c.qualifiers with
      | none =>
        obtain ⟨rfl, rfl⟩ := Match.against.inj (hm.symm.trans (matchCandidate_event hform hresolve hd))
        obtain ⟨-, row', -, hrow, -⟩ := applyCandidate_written hu hm hok
        rcases candidateRow_cases env db c' (some f) embedding event with ⟨hdates, -⟩ | ⟨-, herror⟩
        · exact ⟨rfl, hdates⟩
        · cases herror.symm.trans hrow
      | some d =>
        by_cases ha : d.status = .active
        · rw [matchCandidate, hd] at hm
          dsimp only at hm
          rw [if_pos ha] at hm
          cases hm
        · rcases matchCandidate_of_stale hd ha with ⟨-, hm'⟩ | ⟨old, -, hm'⟩
          · cases hm'.symm.trans hm
          · obtain ⟨rfl, rfl⟩ := Match.against.inj (hm.symm.trans hm')
            exact absurd hacc (hadj.not_accumulated rfl)
  · rintro ⟨hnone, hdates⟩ result
    have hm := matchCandidate_event hform hresolve hnone
    obtain ⟨aliases, heq⟩ := applyCandidate_against hu hm
    rcases candidateRow_cases env db c (some f) embedding event with ⟨-, row, hrow⟩ | ⟨herror, -⟩
    · have hfresh := candidateRow_fresh hrow
      have hrowform : row.memoryForm = .event := (candidateRow_memoryForm hrow).trans hform
      have hvalue : row.value = c.value := by
        obtain ⟨_, _, rfl⟩ := candidateRow_eq_ok hrow
        dsimp only
        rw [storedValue, if_neg hheld, carryForward, inheritedFrom, if_neg (by rw [hcreate]; simp)]
      have heffect : effectOf db c (some f) row.memoryForm event = .ok .accept := by
        rw [effectOf, if_neg hheld]
        simp only [hcreate, reduceCtorEq, if_false, hrowform, true_or, if_true]
      have hunique : ({ Effect.apply env event db row .accept with
          predicateAliases := aliases } : Db).UniqueActive := by
        refine (unique_accept_iff hu hfresh).mpr fun hstate ↦ ?_
        cases hrowform.symm.trans hstate.1
      refine ⟨{ Effect.apply env event db row .accept with predicateAliases := aliases },
        Effect.count result c .accept, ?_, accumulated_accept hfresh hrowform hvalue⟩
      rw [heq, hrow, ok_bind, heffect, ok_bind, flush_of_unique hunique, ok_bind]
    · exact absurd hdates herror

end

namespace Sample

/-- A candidate that tells an occurrence. -/
def occurrence (predicate v : String) : Candidate :=
  { create predicate v with memoryForm := some .event }

/-- The subject visited Lyon. -/
def visited : Db := runOps .sample .empty (observe (event 1 .trusted) [occurrence "visited" "Lyon"])

/-- Lyon is replaced by Nice; Paris and Rome contradict it, and the city becomes an occurrence. -/
def cities : List Op :=
  observe (event 1 .trusted) [create "city" "Lyon"] ++
    observe (event 2 .trusted) [supersede "city" "Nice"] ++
    observe (event 3 .trusted) [create "city" "Paris"] ++
    observe (event 4 .trusted) [create "city" "Rome"]

theorem cities_isConsolidation : ∀ op ∈ cities, op.IsConsolidation := by
  simp [cities, observe, Op.IsConsolidation]

end Sample

/-- The subject visits Lyon again. -/
theorem accumulates_visited : Accumulates .sample Sample.visited (Sample.occurrence "visited" "Lyon")
    (candidateEmbedding .sample (Sample.occurrence "visited" "Lyon")) (Sample.event 2 .trusted) := by
  obtain ⟨f, hresolve, hform, hheld⟩ : ∃ f ∈ (Sample.visited.resolveExistingFact .sample
      (Sample.event 2 .trusted).scope (Sample.occurrence "visited" "Lyon").targetPredicate
      (Sample.occurrence "visited" "Lyon").qualifiers
      (candidateEmbedding .sample (Sample.occurrence "visited" "Lyon"))).1,
      f.memoryForm = .event ∧ ¬ HeldBack (Sample.event 2 .trusted) (some f) := by decide +kernel
  exact (accumulates_iff (by decide +kernel) rfl hresolve hform hheld).mpr
    ⟨by decide +kernel, none, none, rfl, rfl⟩

/-- Lyon comes back as an occurrence, and closes the one it is matched with. -/
theorem returning_occurrence_replaces :
    Reachable .sample Op.IsConsolidation (runOps .sample .empty Sample.cities) ∧
      (∃ f ∈ ((runOps .sample .empty Sample.cities).resolveExistingFact .sample Sample.scope "city"
        .empty (candidateEmbedding .sample (Sample.create "city" "Lyon"))).1,
          f.memoryForm = .event ∧ ¬ HeldBack (Sample.event 5 .trusted) (some f)) ∧
      ¬ Accumulates .sample (runOps .sample .empty Sample.cities) (Sample.create "city" "Lyon")
        (candidateEmbedding .sample (Sample.create "city" "Lyon")) (Sample.event 5 .trusted) := by
  refine ⟨⟨_, Sample.cities_isConsolidation, rfl⟩, by decide +kernel, fun h ↦ ?_⟩
  obtain ⟨db', result', hok, hacc⟩ := h {}
  have hclosed : ∀ s ∈ (applyCandidate .sample (runOps .sample .empty Sample.cities)
      (Sample.create "city" "Lyon") (candidateEmbedding .sample (Sample.create "city" "Lyon"))
      (Sample.event 5 .trusted) {}).toOption, ∃ f ∈ (runOps .sample .empty Sample.cities).facts,
        f.status = .active ∧ ∀ f' ∈ s.1.facts, f'.id = f.id → f'.status = .superseded := by
    decide +kernel
  obtain ⟨f, hf, hactive, hclosed⟩ := hclosed _ (toOption_eq_some.mpr hok)
  obtain ⟨f', hf', hid, hstatus, -⟩ := hacc.kept f hf
  rw [hclosed f' hf' hid, hactive] at hstatus
  cases hstatus

end Haki
