import Haki.Consolidator.Step
import Haki.Data.Ascending

/-!
# What a ledger makes of an assertion

An assertion is a candidate of an event.  What the duplicate check and the
target lookup answer to it depends on the wording of the facts, and on which of
them are active.  `Said`, `Named` and `Near` say which facts matter, without
the order in which the lookups meet them; an assertion is `Settled` when, going
by them, applying it again is dismissed and teaches nothing.

The definitions look one step ahead: `closed` is a fact that is about to be
superseded, and `heard` a fact that is about to list an event.
-/

namespace Haki

open Data Control

/-- What a fact says, whatever becomes of it. -/
structure Wording where
  scope : Scope
  predicate : String
  value : Dict
  qualifiers : Dict
  memoryForm : MemoryForm
  embedding : Option Embedding

/-- The columns of a fact that say what it says. -/
def Fact.wording (f : Fact) : Wording :=
  ⟨f.scope, f.predicate, f.value, f.qualifiers, f.memoryForm, f.embedding⟩

/-- The fact is active, and not about to be closed. -/
def Fact.Live (closed : Option FactId) (f : Fact) : Prop := f.status = .active ∧ f.id ∉ closed

instance (closed : Option FactId) (f : Fact) : Decidable (f.Live closed) :=
  inferInstanceAs (Decidable (_ ∧ _))

theorem Fact.live_none {f : Fact} : f.Live none ↔ f.status = .active :=
  and_iff_left (by rintro ⟨⟩)

/-- What an event says. -/
structure Assertion where
  scope : Scope
  eventId : EventId
  candidate : Candidate

/-- The candidate of an event. -/
def Event.asserts (event : Event) (c : Candidate) : Assertion := ⟨event.scope, event.id, c⟩

namespace Assertion

variable (env : Env) (db : Db) (p : Assertion)

/-! ## Facts that matter -/

/-- The wording is that of the assertion, as `_find_duplicate` compares them. -/
def SaidBy (w : Wording) : Prop :=
  w.scope = p.scope ∧ w.predicate = p.candidate.predicate ∧ w.memoryForm ≠ .event ∧
    canonical w.value = canonical p.candidate.value ∧
    canonical (identityQualifiers w.qualifiers) =
      canonical (identityQualifiers p.candidate.qualifiers)

/-- The fact says it. -/
def Said (f : Fact) : Prop := f.status ≠ .deleted ∧ p.SaidBy f.wording

/-- The target lookup finds an active fact with this wording by its name: the target predicate, or
the synonym registered for it. -/
def Named (w : Wording) : Prop :=
  w.scope = p.scope ∧
    (w.predicate = p.candidate.targetPredicate ∨
      db.aliasOf p.scope p.candidate.targetPredicate = some w.predicate) ∧
    canonical (identityQualifiers w.qualifiers) =
      canonical (identityQualifiers p.candidate.qualifiers)

/-- The wording lies within a distance of the assertion. -/
def Within (distance : ℚ) (w : Wording) : Prop :=
  ∃ v ∈ w.embedding, env.cosineDistance v (candidateEmbedding env p.candidate) ≤ distance

/-- The target lookup may find an active fact with this wording by its nearness. -/
def Near (w : Wording) : Prop :=
  w.scope = p.scope ∧
    (identityQualifiers w.qualifiers).toJsonb = (identityQualifiers p.candidate.qualifiers).toJsonb ∧
    p.Within env semanticMatchMaxDistance w

/-- The target lookup may find an active fact with this wording. -/
def Reaches (w : Wording) : Prop := p.Named db w ∨ p.Near env w

/-- Found by its nearness, a fact with this wording teaches a synonym. -/
def Teaches (w : Wording) : Prop :=
  db.aliasOf p.scope p.candidate.targetPredicate = none ∧
    w.predicate ≠ p.candidate.targetPredicate ∧ p.Within env aliasLearnMaxDistance w

instance (w : Wording) : Decidable (p.SaidBy w) :=
  inferInstanceAs (Decidable (_ ∧ _ ∧ _ ∧ _ ∧ _))

instance (f : Fact) : Decidable (p.Said f) := inferInstanceAs (Decidable (_ ∧ _))

instance (w : Wording) : Decidable (p.Named db w) := inferInstanceAs (Decidable (_ ∧ _ ∧ _))

instance (distance : ℚ) (w : Wording) : Decidable (p.Within env distance w) :=
  inferInstanceAs (Decidable (∃ _ ∈ _, _))

instance (w : Wording) : Decidable (p.Near env w) := inferInstanceAs (Decidable (_ ∧ _ ∧ _))

instance (w : Wording) : Decidable (p.Reaches env db w) := inferInstanceAs (Decidable (_ ∨ _))

instance (w : Wording) : Decidable (p.Teaches env db w) :=
  inferInstanceAs (Decidable (_ ∧ _ ∧ _))

/-! ## Settled assertions -/

variable (closed : Option FactId) (heard : Option (FactId × EventId))

/-- The fact lists the event. -/
def Lists (f : Fact) : Prop := p.eventId ∈ f.sourceEventIds ∨ (f.id, p.eventId) ∈ heard

/-- The first active fact that says it lists the event. -/
def Told : Prop :=
  ∃ f ∈ db.facts.rows.find? (fun f ↦ p.Said f ∧ f.Live closed), p.Lists heard f

/-- Only facts that are not active say it, and the lookup finds no active one. -/
def Dormant : Prop :=
  (∃ f ∈ db.facts, p.Said f) ∧
    ∀ f ∈ db.facts, f.Live closed → ¬ p.SaidBy f.wording ∧ ¬ p.Reaches env db f.wording

/-- The lookup may return the fact: those found by name come before those that are near. -/
def Heeds (f : Fact) : Prop :=
  f.Live closed ∧ (p.Named db f.wording ∨
    p.Near env f.wording ∧ ∀ g ∈ db.facts, g.Live closed → ¬ p.Named db g.wording)

/-- The fact says it under another name, lists the event, and teaches nothing. -/
def Echoes (f : Fact) : Prop :=
  f.memoryForm ≠ .event ∧ canonical f.value = canonical p.candidate.value ∧ p.Lists heard f ∧
    ¬ p.Teaches env db f.wording

/-- No fact says it, and those the lookup may return say it under another name. -/
def Elsewhere : Prop :=
  p.candidate.action = .create ∧ (∀ f ∈ db.facts, ¬ p.Said f) ∧
    (∃ f ∈ db.facts, p.Heeds env db closed f) ∧
    ∀ f ∈ db.facts, p.Heeds env db closed f → p.Echoes env db heard f

/-- Applied again, the assertion is dismissed and teaches nothing. -/
def Settled : Prop :=
  p.Told db closed heard ∨ p.Dormant env db closed ∨ p.Elsewhere env db closed heard

instance (f : Fact) : Decidable (p.Lists heard f) := inferInstanceAs (Decidable (_ ∨ _))

instance : Decidable (p.Told db closed heard) :=
  inferInstanceAs (Decidable (∃ _ ∈ (_ : Option Fact), _))

instance : Decidable (p.Dormant env db closed) := inferInstanceAs (Decidable (_ ∧ _))

instance (f : Fact) : Decidable (p.Heeds env db closed f) := inferInstanceAs (Decidable (_ ∧ _))

instance (f : Fact) : Decidable (p.Echoes env db heard f) :=
  inferInstanceAs (Decidable (_ ∧ _ ∧ _ ∧ _))

instance : Decidable (p.Elsewhere env db closed heard) :=
  inferInstanceAs (Decidable (_ ∧ _ ∧ _ ∧ _))

instance : Decidable (p.Settled env db closed heard) := inferInstanceAs (Decidable (_ ∨ _ ∨ _))

/-! ## The target lookup -/

/-- The target lookup. -/
abbrev lookup : Option Fact × Db :=
  db.resolveExistingFact env p.scope p.candidate.targetPredicate p.candidate.qualifiers
    (candidateEmbedding env p.candidate)

variable {env db p closed heard} {f : Fact}

theorem activeFact_none {scope : Scope} {predicate : String} {qualifiers : Dict}
    (h : db.activeFact scope predicate qualifiers = none) (hf : f ∈ db.facts)
    (hs : f.scope = scope) (hp : f.predicate = predicate) (ha : f.status = .active) :
    ¬ identityQualifiersMatch f qualifiers := by
  refine List.find?_eq_none.mp h f ?_
  rw [List.mem_insertionSort, List.mem_filter]
  exact ⟨hf, decide_eq_true ⟨hs, hp, ha⟩⟩

/-- The nearest fact is one that could be found, at its distance. -/
theorem nearestActiveFact_near {scope : Scope} {qualifiers : Dict} {embedding : Embedding} {d : ℚ}
    (h : db.nearestActiveFact env scope qualifiers embedding = some (f, d)) :
    identityQualifiersSql f qualifiers ∧ ∃ v ∈ f.embedding, env.cosineDistance v embedding = d := by
  have hm := List.mem_of_head? h
  rw [List.mem_insertionSort, List.mem_filterMap] at hm
  obtain ⟨g, -, hif⟩ := hm
  split at hif
  · next hc =>
    obtain ⟨v, hv, heq⟩ := Option.map_eq_some_iff.mp hif
    obtain ⟨rfl, rfl⟩ := Prod.mk.inj heq
    exact ⟨hc.2.2, v, hv, rfl⟩
  · cases hif

/-- No fact that could be found is nearer. -/
theorem nearestActiveFact_le (env : Env) {scope : Scope} {qualifiers : Dict} (embedding : Embedding)
    (hf : f ∈ db.facts) (hs : f.scope = scope) (ha : f.status = .active)
    (hq : identityQualifiersSql f qualifiers) {v : Embedding} (hv : v ∈ f.embedding) :
    ∃ m ∈ db.nearestActiveFact env scope qualifiers embedding,
      m.2 ≤ env.cosineDistance v embedding := by
  refine head?_ascending_le Prod.snd (a := (f, env.cosineDistance v embedding)) ?_
  refine List.mem_filterMap.mpr ⟨f, hf, ?_⟩
  rw [if_pos ⟨hs, ha, hq⟩, hv]
  rfl

/-- A lookup that finds nothing by name. -/
theorem not_named (hexact : db.activeFact p.scope p.candidate.targetPredicate
      p.candidate.qualifiers = none)
    (haliased : ((db.aliasOf p.scope p.candidate.targetPredicate).bind fun canonicalPredicate ↦
      db.activeFact p.scope canonicalPredicate p.candidate.qualifiers) = none)
    (hf : f ∈ db.facts) (ha : f.status = .active) : ¬ p.Named db f.wording := by
  rintro ⟨hs, hp | hp, hq⟩
  · exact activeFact_none hexact hf hs hp ha (decide_eq_true hq)
  · rw [hp] at haliased
    exact activeFact_none haliased hf hs rfl ha (decide_eq_true hq)

theorem learnAlias_of_isSome {scope : Scope} {predicate : String}
    (h : db.aliasOf scope predicate ≠ none) (canonicalPredicate : String) :
    db.learnAlias scope predicate canonicalPredicate = db := by
  obtain ⟨a, ha⟩ := Option.isSome_iff_exists.mp
    (Option.isSome_map.symm.trans (Option.isSome_iff_ne_none.mpr h))
  obtain ⟨hmem, hkey⟩ := Table.get?_eq_some_iff.mp ha
  have hinsert : db.predicateAliases.insert ⟨scope, predicate, canonicalPredicate⟩ =
      db.predicateAliases := dif_pos (List.mem_map.mpr ⟨a, hmem, hkey⟩)
  rw [Db.learnAlias, hinsert]

/-- What the lookup returns is one of the facts it may return, and teaches what it learns. -/
theorem lookup_some (h : (p.lookup env db).1 = some f) :
    f ∈ db.facts ∧ p.Heeds env db none f ∧
      (¬ p.Teaches env db f.wording → (p.lookup env db).2 = db) := by
  rw [lookup, Db.resolveExistingFact] at h ⊢
  split at h
  · next exact hx =>
    obtain rfl := Option.some.inj h
    obtain ⟨hm, hs, hp, ha, hq⟩ := Db.activeFact_some hx
    exact ⟨hm, ⟨Fact.live_none.mpr ha, .inl ⟨hs, .inl hp, of_decide_eq_true hq⟩⟩, fun _ ↦ rfl⟩
  · next hexact =>
    split at h
    · next aliased hx =>
      obtain rfl := Option.some.inj h
      obtain ⟨canonicalPredicate, hc, hx⟩ := Option.bind_eq_some_iff.mp hx
      obtain ⟨hm, hs, rfl, ha, hq⟩ := Db.activeFact_some hx
      exact ⟨hm, ⟨Fact.live_none.mpr ha, .inl ⟨hs, .inr hc, of_decide_eq_true hq⟩⟩, fun _ ↦ rfl⟩
    · next haliased =>
      split at h
      · cases h
      · next matched distance hx =>
        obtain ⟨hm, hs, ha⟩ := Db.nearestActiveFact_some hx
        obtain ⟨hq, v, hv, rfl⟩ := nearestActiveFact_near hx
        split at h
        · cases h
        · next hfar =>
          have hheeds : p.Heeds env db none matched :=
            ⟨Fact.live_none.mpr ha, .inr ⟨⟨hs, of_decide_eq_true hq, v, hv, not_lt.mp hfar⟩,
              fun g hg hlive ↦ not_named hexact haliased hg (Fact.live_none.mp hlive)⟩⟩
          rw [if_neg hfar]
          split at h
          · next hlearn =>
            obtain rfl := Option.some.inj h
            refine ⟨hm, hheeds, fun hteaches ↦ ?_⟩
            rw [if_pos hlearn]
            refine learnAlias_of_isSome (fun hnone ↦ hteaches ⟨hnone, hlearn.1, v, hv, hlearn.2⟩) _
          · next hlearn =>
            obtain rfl := Option.some.inj h
            exact ⟨hm, hheeds, fun _ ↦ by rw [if_neg hlearn]⟩

/-- A lookup that returns nothing reaches nothing, and learns nothing. -/
theorem lookup_none (h : (p.lookup env db).1 = none) :
    (∀ f ∈ db.facts, f.status = .active → ¬ p.Reaches env db f.wording) ∧
      (p.lookup env db).2 = db := by
  rw [lookup, Db.resolveExistingFact] at h ⊢
  split at h
  · cases h
  · next hexact =>
    split at h
    · cases h
    · next haliased =>
      have hnear {g : Fact} (hg : g ∈ db.facts) (ha : g.status = .active)
          (hnear : p.Near env g.wording) :
          ∃ m ∈ db.nearestActiveFact env p.scope p.candidate.qualifiers
            (candidateEmbedding env p.candidate), m.2 ≤ semanticMatchMaxDistance := by
        obtain ⟨hs, hq, v, hv, hle⟩ := hnear
        obtain ⟨m, hm, hmin⟩ := nearestActiveFact_le env (candidateEmbedding env p.candidate)
          hg hs ha (decide_eq_true hq) hv
        exact ⟨m, hm, hmin.trans hle⟩
      split at h
      · next hx =>
        refine ⟨?_, rfl⟩
        rintro g hg ha (hnamed | hn)
        · exact not_named hexact haliased hg ha hnamed
        · obtain ⟨m, hm, -⟩ := hnear hg ha hn
          rw [hx] at hm
          cases hm
      · next matched distance hx =>
        split at h
        · next hfar =>
          rw [if_pos hfar]
          refine ⟨?_, rfl⟩
          rintro g hg ha (hnamed | hn)
          · exact not_named hexact haliased hg ha hnamed
          · obtain ⟨m, hm, hle⟩ := hnear hg ha hn
            rw [hx] at hm
            cases hm
            exact absurd hle (not_le.mpr hfar)
        · split at h <;> cases h

/-- A lookup that reaches nothing returns nothing. -/
theorem lookup_unreached (h : ∀ f ∈ db.facts, f.status = .active → ¬ p.Reaches env db f.wording) :
    p.lookup env db = (none, db) := by
  cases hl : (p.lookup env db).1 with
  | none => exact Prod.ext hl (lookup_none hl).2
  | some f =>
    obtain ⟨hf, ⟨hlive, hfound⟩, -⟩ := lookup_some hl
    exact absurd (hfound.imp_right And.left) (h f hf (Fact.live_none.mp hlive))

/-! ## Replays -/

section Replays

variable {event : Event} {c : Candidate}

theorem mem_duplicates (event : Event) (c : Candidate) :
    f ∈ db.duplicates event.scope c.predicate c.value c.qualifiers ↔
      f ∈ db.facts ∧ (event.asserts c).Said f := by
  rw [Db.mem_duplicates]
  constructor
  · rintro ⟨hf, hs, hp, hd, hform, hv, hq⟩
    exact ⟨hf, hd, hs, hp, hform, hv, of_decide_eq_true hq⟩
  · rintro ⟨hf, hd, hs, hp, hform, hv, hq⟩
    exact ⟨hf, hs, hp, hd, hform, hv, decide_eq_true hq⟩

/-- The duplicate check answers with the first active fact that says it, if there is one. -/
theorem find?_duplicates (db : Db) (event : Event) (c : Candidate) :
    (db.duplicates event.scope c.predicate c.value c.qualifiers).find? (fun f ↦ f.status = .active) =
      db.facts.rows.find? (fun f ↦ (event.asserts c).Said f ∧ f.Live none) := by
  rw [Db.duplicates, List.find?_filter]
  congr 1
  funext f
  refine decide_eq_decide.mpr ?_
  rw [decide_eq_true_eq, decide_eq_true_eq, Fact.live_none]
  refine and_congr_left' ?_
  constructor
  · rintro ⟨hs, hp, hd, hform, hv, hq⟩
    exact ⟨hd, hs, hp, hform, hv, of_decide_eq_true hq⟩
  · rintro ⟨hd, hs, hp, hform, hv, hq⟩
    exact ⟨hs, hp, hd, hform, hv, decide_eq_true hq⟩

theorem Told.matched (h : (event.asserts c).Told db none none) :
    ∃ f, matchCandidate env db c (candidateEmbedding env c) event = (.duplicate f, db) ∧
      event.id ∈ f.sourceEventIds := by
  obtain ⟨f, hf, hlists⟩ := h
  have hf := Option.mem_def.mp hf
  have hfound := List.find?_some hf
  have hactive : f.status = .active := Fact.live_none.mp (of_decide_eq_true hfound).2
  have hdup : db.findDuplicate event.scope c.predicate c.value c.qualifiers = some f := by
    rw [Db.findDuplicate, find?_duplicates, hf]
    rfl
  rw [matchCandidate, hdup]
  dsimp only
  rw [if_pos hactive]
  exact ⟨f, rfl, hlists.resolve_right (by rintro ⟨⟩)⟩

theorem Dormant.matched (h : (event.asserts c).Dormant env db none) :
    ∃ f, matchCandidate env db c (candidateEmbedding env c) event = (.duplicate f, db) ∧
      f.status ≠ .active := by
  obtain ⟨⟨d, hd, hsaid⟩, hlive⟩ := h
  have hlookup : db.resolveExistingFact env event.scope c.targetPredicate c.qualifiers
      (candidateEmbedding env c) = (none, db) := by
    refine lookup_unreached (p := event.asserts c) fun f hf ha ↦ ?_
    exact (hlive f hf (Fact.live_none.mpr ha)).2
  cases hdup : db.findDuplicate event.scope c.predicate c.value c.qualifiers with
  | none =>
    rw [Db.findDuplicate_eq_none_iff] at hdup
    exact absurd ((mem_duplicates event c).mpr ⟨hd, hsaid⟩) (hdup ▸ List.not_mem_nil)
  | some f =>
    obtain ⟨hf, hfsaid⟩ := (mem_duplicates event c).mp (Db.findDuplicate_some hdup)
    have hne : f.status ≠ .active := fun ha ↦ (hlive f hf (Fact.live_none.mpr ha)).1 hfsaid.2
    rw [matchCandidate, hdup]
    dsimp only
    rw [if_neg hne, hlookup]
    exact ⟨f, rfl, hne⟩

theorem Elsewhere.matched (h : (event.asserts c).Elsewhere env db none none) :
    ∃ f, matchCandidate env db c (candidateEmbedding env c) event = (.duplicate f, db) ∧
      event.id ∈ f.sourceEventIds := by
  obtain ⟨hcreate, hunsaid, ⟨g, hg, hheeds⟩, hall⟩ := h
  have hdup : db.findDuplicate event.scope c.predicate c.value c.qualifiers = none := by
    refine Db.findDuplicate_eq_none_iff.mpr (List.eq_nil_iff_forall_not_mem.mpr fun f hf ↦ ?_)
    obtain ⟨hf, hsaid⟩ := (mem_duplicates event c).mp hf
    exact hunsaid f hf hsaid
  cases hl : ((event.asserts c).lookup env db).1 with
  | none =>
    exact absurd (hheeds.2.imp_right And.left)
      ((lookup_none hl).1 g hg (Fact.live_none.mp hheeds.1))
  | some f =>
    obtain ⟨hf, hfheeds, hlearns⟩ := lookup_some hl
    obtain ⟨hform, hvalue, hlists, hteaches⟩ := hall f hf hfheeds
    have hlookup : db.resolveExistingFact env event.scope c.targetPredicate c.qualifiers
        (candidateEmbedding env c) = (some f, db) := Prod.ext hl (hlearns hteaches)
    rw [matchCandidate, hdup]
    dsimp only
    rw [matchTarget, hlookup]
    dsimp only [Option.some_or]
    rw [if_pos ⟨hcreate, hform, hvalue⟩]
    exact ⟨f, rfl, hlists.resolve_right (by rintro ⟨⟩)⟩

/-- **Settled assertions are dismissed**: matched with a duplicate that is not reinforced, they
teach nothing. -/
theorem Settled.matched (h : (event.asserts c).Settled env db none none) :
    ∃ f, matchCandidate env db c (candidateEmbedding env c) event = (.duplicate f, db) ∧
      (f.status ≠ .active ∨ event.id ∈ f.sourceEventIds) := by
  rcases h with h | h | h
  · obtain ⟨f, hm, hlisted⟩ := h.matched
    exact ⟨f, hm, .inr hlisted⟩
  · obtain ⟨f, hm, hne⟩ := h.matched
    exact ⟨f, hm, .inl hne⟩
  · obtain ⟨f, hm, hlisted⟩ := h.matched
    exact ⟨f, hm, .inr hlisted⟩

/-! ## What the matching of an assertion tells -/

/-- Unless the duplicate check answers with an active fact, none says it. -/
theorem unsaid_of_findDuplicate
    (h : ∀ f, db.findDuplicate event.scope c.predicate c.value c.qualifiers = some f →
      f.status ≠ .active) (hf : f ∈ db.facts) (hlive : f.Live none) :
    ¬ (event.asserts c).SaidBy f.wording := by
  intro hsaid
  have hsaid : (event.asserts c).Said f := ⟨by rw [hlive.1]; decide, hsaid⟩
  have hfound := find?_duplicates db event c
  cases hfind : db.facts.rows.find? (fun f ↦ (event.asserts c).Said f ∧ f.Live none) with
  | none => exact List.find?_eq_none.mp hfind f hf (decide_eq_true ⟨hsaid, hlive⟩)
  | some g =>
    have hg := List.find?_some hfind
    refine h g ?_ (of_decide_eq_true hg).2.1
    rw [Db.findDuplicate, hfound, hfind]
    rfl

/-- No active fact says what is adjudicated. -/
theorem unsaid_of_against {c' : Candidate} {existing : Option Fact} {embedding : Embedding}
    (h : (matchCandidate env db c embedding event).1 = .against c' existing) (hf : f ∈ db.facts)
    (hlive : f.Live none) : ¬ (event.asserts c).SaidBy f.wording := by
  refine unsaid_of_findDuplicate (fun g hg ha ↦ ?_) hf hlive
  rw [matchCandidate, hg] at h
  dsimp only at h
  rw [if_pos ha] at h
  cases h

/-- A duplicate that says it settles it, once it lists the event. -/
theorem Settled.of_duplicate {db₁ : Db}
    (h : matchCandidate env db c (candidateEmbedding env c) event = (.duplicate f, db₁))
    (hsaid : (event.asserts c).SaidBy f.wording) :
    (event.asserts c).Settled env db₁ none (some (f.id, event.id)) := by
  cases hdup : db.findDuplicate event.scope c.predicate c.value c.qualifiers with
  | none =>
    rw [matchCandidate, hdup] at h
    dsimp only at h
    obtain ⟨hd, ha, -⟩ := matchTarget_duplicate (congrArg Prod.fst h)
    refine absurd hsaid (unsaid_of_findDuplicate (fun g hg ↦ ?_) hd.mem (Fact.live_none.mpr ha))
    cases hdup.symm.trans hg
  | some d =>
    obtain ⟨hd, hdsaid⟩ := (mem_duplicates event c).mp (Db.findDuplicate_some hdup)
    rw [matchCandidate, hdup] at h
    dsimp only at h
    by_cases ha : d.status = .active
    · rw [if_pos ha] at h
      obtain ⟨hmatch, rfl⟩ := Prod.mk.inj h
      obtain rfl := Match.duplicate.inj hmatch
      refine .inl ⟨d, ?_, .inr rfl⟩
      rw [Option.mem_def, ← find?_duplicates]
      rcases Option.or_eq_some_iff.mp hdup with hfirst | ⟨hnone, -⟩
      · exact hfirst
      · exact absurd (decide_eq_true ha)
          (List.find?_eq_none.mp hnone d (Db.findDuplicate_some hdup))
    · rw [if_neg ha] at h
      have hunsaid : ∀ g ∈ db.facts, g.Live none → ¬ (event.asserts c).SaidBy g.wording := by
        refine fun g hg ↦ unsaid_of_findDuplicate (fun d' hd' ↦ ?_) hg
        rwa [← Option.some.inj (hdup.symm.trans hd')]
      split at h
      · next db₂ hlookup =>
        obtain ⟨hmatch, rfl⟩ := Prod.mk.inj h
        obtain rfl := Match.duplicate.inj hmatch
        have hnone := lookup_none (p := event.asserts c) (congrArg Prod.fst hlookup)
        obtain rfl : db = db₂ := hnone.2.symm.trans (congrArg Prod.snd hlookup)
        refine .inr (.inl ⟨⟨d, hd, hdsaid⟩, fun g hg hlive ↦ ⟨hunsaid g hg hlive, ?_⟩⟩)
        exact hnone.1 g hg hlive.1
      · exact absurd (matchTarget_duplicate (congrArg Prod.fst h)).2.2 (by simp)

end Replays

end Assertion

end Haki
