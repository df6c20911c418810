import Haki.Ledger.Core

/-!
# What a candidate is compared with

The read side of the adjudicator: `_active_fact`, `_find_duplicate`,
`_resolve_existing_fact`, `_find_qualifier_ambiguous_active_fact` and
`_open_conflict_set`.  Only `_resolve_existing_fact` writes, and only the
predicate alias it learns.
-/

namespace Haki

open Data

/-- `SEMANTIC_MATCH_MAX_DISTANCE`. -/
def semanticMatchMaxDistance : ℚ := 28 / 100

/-- `ALIAS_LEARN_MAX_DISTANCE`. -/
def aliasLearnMaxDistance : ℚ := 23 / 100

/-- `_search_text`. -/
def searchText (predicate : String) (value : Dict) : String := predicate ++ " " ++ canonical value

namespace Db

variable (env : Env) (db : Db) (scope : Scope) (predicate : String)

/-- `_active_fact`: the most recently recorded active fact with this predicate and these
identity qualifiers. -/
def activeFact (qualifiers : Dict) : Option Fact :=
  ((db.facts.rows.filter fun f ↦
      f.scope = scope ∧ f.predicate = predicate ∧ f.status = .active).insertionSort
    fun f g ↦ g.recordedFrom ≤ f.recordedFrom).find? fun f ↦ identityQualifiersMatch f qualifiers

/-- The rows `_find_duplicate` matches. -/
def duplicates (value qualifiers : Dict) : List Fact :=
  db.facts.rows.filter fun f ↦
    f.scope = scope ∧ f.predicate = predicate ∧ f.status ≠ .deleted ∧ f.memoryForm ≠ .event ∧
      canonical f.value = canonical value ∧ identityQualifiersMatch f qualifiers

/-- `_find_duplicate`: `(active or matches)[0]`. -/
def findDuplicate (value qualifiers : Dict) : Option Fact :=
  let found := db.duplicates scope predicate value qualifiers
  (found.find? fun f ↦ f.status = .active).or found.head?

/-- `predicate_aliases` lookup. -/
def aliasOf : Option String :=
  (db.predicateAliases.get? (scope, predicate)).map PredicateAlias.canonicalPredicate

/-- Register a synonym, unless one is registered already. -/
def learnAlias (canonicalPredicate : String) : Db :=
  { db with predicateAliases := db.predicateAliases.insert ⟨scope, predicate, canonicalPredicate⟩ }

/-- The active fact with these identity qualifiers nearest to an embedding, and its distance. -/
def nearestActiveFact (qualifiers : Dict) (embedding : Embedding) : Option (Fact × ℚ) :=
  ((db.facts.rows.filterMap fun f ↦
      if f.scope = scope ∧ f.status = .active ∧ identityQualifiersSql f qualifiers then
        f.embedding.map fun v ↦ (f, env.cosineDistance v embedding)
      else none).insertionSort fun a b ↦ a.2 ≤ b.2).head?

/-- `_resolve_existing_fact`: the active fact a candidate is adjudicated against, by exact
predicate, then by a registered alias, then by nearness.  A strong semantic match is learned
as an alias. -/
def resolveExistingFact (qualifiers : Dict) (embedding : Embedding) : Option Fact × Db :=
  match db.activeFact scope predicate qualifiers with
  | some exact => (some exact, db)
  | none =>
    match (db.aliasOf scope predicate).bind fun canonicalPredicate ↦
        db.activeFact scope canonicalPredicate qualifiers with
    | some aliased => (some aliased, db)
    | none =>
      match db.nearestActiveFact env scope qualifiers embedding with
      | none => (none, db)
      | some (matched, distance) =>
        if semanticMatchMaxDistance < distance then (none, db)
        else if matched.predicate ≠ predicate ∧ distance ≤ aliasLearnMaxDistance then
          (some matched, db.learnAlias scope predicate matched.predicate)
        else (some matched, db)

/-- `_find_qualifier_ambiguous_active_fact`: an unconditional and a qualified fact under one
predicate (or its registered synonym) that disagree on the value. -/
def findQualifierAmbiguousActiveFact (qualifiers value : Dict) : Option Fact :=
  let predicates := predicate :: ((db.aliasOf scope predicate).filter (· ≠ predicate)).toList
  predicates.findSome? fun onePredicate ↦ db.facts.rows.find? fun f ↦
    f.scope = scope ∧ f.predicate = onePredicate ∧ f.status = .active ∧
      (identityQualifiers f.qualifiers).rows.isEmpty ≠ (identityQualifiers qualifiers).rows.isEmpty ∧
      canonical f.value ≠ canonical value

/-- `_open_conflict_set`: the first open set of the scope a fact is in. -/
def openConflictSet (id : FactId) : Option ConflictSet :=
  db.conflictSets.rows.find? fun s ↦ s.scope = scope ∧ s.status = .open ∧ id ∈ s.factIds

/-! ## What the lookups return -/

variable {env db scope predicate}

theorem activeFact_some {qualifiers : Dict} {f : Fact}
    (h : db.activeFact scope predicate qualifiers = some f) :
    f ∈ db.facts ∧ f.scope = scope ∧ f.predicate = predicate ∧ f.status = .active ∧
      identityQualifiersMatch f qualifiers := by
  have hm := List.mem_of_find?_eq_some h
  rw [List.mem_insertionSort, List.mem_filter] at hm
  obtain ⟨hm, hp⟩ := hm
  obtain ⟨hs, hp, ha⟩ := of_decide_eq_true hp
  have hq := List.find?_some h
  exact ⟨hm, hs, hp, ha, hq⟩

theorem mem_duplicates {value qualifiers : Dict} {f : Fact} :
    f ∈ db.duplicates scope predicate value qualifiers ↔
      f ∈ db.facts ∧ f.scope = scope ∧ f.predicate = predicate ∧ f.status ≠ .deleted ∧
        f.memoryForm ≠ .event ∧ canonical f.value = canonical value ∧
        identityQualifiersMatch f qualifiers := by
  simp [duplicates]

theorem findDuplicate_some {value qualifiers : Dict} {f : Fact}
    (h : db.findDuplicate scope predicate value qualifiers = some f) :
    f ∈ db.duplicates scope predicate value qualifiers := by
  rw [findDuplicate, Option.or_eq_some_iff] at h
  rcases h with h | ⟨-, h⟩
  · exact List.mem_of_find?_eq_some h
  · exact List.mem_of_head? h

theorem findDuplicate_eq_none_iff {value qualifiers : Dict} :
    db.findDuplicate scope predicate value qualifiers = none ↔
      db.duplicates scope predicate value qualifiers = [] := by
  rw [findDuplicate, Option.or_eq_none_iff, List.head?_eq_none_iff]
  exact ⟨And.right, fun h ↦ ⟨by rw [h]; rfl, h⟩⟩

theorem nearestActiveFact_some {qualifiers : Dict} {embedding : Embedding} {f : Fact} {d : ℚ}
    (h : db.nearestActiveFact env scope qualifiers embedding = some (f, d)) :
    f ∈ db.facts ∧ f.scope = scope ∧ f.status = .active := by
  have hm := List.mem_of_head? h
  rw [List.mem_insertionSort, List.mem_filterMap] at hm
  obtain ⟨g, hg, hif⟩ := hm
  split at hif
  · next hc =>
    obtain ⟨v, -, hv⟩ := Option.map_eq_some_iff.mp hif
    obtain rfl : g = f := (Prod.mk.inj hv).1
    exact ⟨hg, hc.1, hc.2.1⟩
  · cases hif

/-- The fact a candidate resolves to is active and of the candidate's scope. -/
theorem resolveExistingFact_some {qualifiers : Dict} {embedding : Embedding} {f : Fact}
    (h : (db.resolveExistingFact env scope predicate qualifiers embedding).1 = some f) :
    f ∈ db.facts ∧ f.scope = scope ∧ f.status = .active := by
  unfold resolveExistingFact at h
  split at h
  · next exact hx =>
    obtain rfl := Option.some.inj h
    obtain ⟨hm, hs, -, ha, -⟩ := activeFact_some hx
    exact ⟨hm, hs, ha⟩
  · split at h
    · next aliased hx =>
      obtain rfl := Option.some.inj h
      obtain ⟨c, -, hx⟩ := Option.bind_eq_some_iff.mp hx
      obtain ⟨hm, hs, -, ha, -⟩ := activeFact_some hx
      exact ⟨hm, hs, ha⟩
    · split at h
      · cases h
      · next matched distance hx =>
        have hx := nearestActiveFact_some hx
        split at h
        · cases h
        · split at h <;> exact Option.some.inj h ▸ hx

/-- Resolving a candidate writes nothing but predicate aliases. -/
theorem resolveExistingFact_snd (env : Env) (db : Db) (scope : Scope) (predicate : String)
    (qualifiers : Dict) (embedding : Embedding) :
    ∃ aliases, (db.resolveExistingFact env scope predicate qualifiers embedding).2 =
      { db with predicateAliases := aliases } := by
  unfold resolveExistingFact
  split
  · exact ⟨_, rfl⟩
  · split
    · exact ⟨_, rfl⟩
    · split
      · exact ⟨_, rfl⟩
      · split
        · exact ⟨_, rfl⟩
        · split <;> exact ⟨_, rfl⟩

theorem findQualifierAmbiguousActiveFact_some {qualifiers value : Dict} {f : Fact}
    (h : db.findQualifierAmbiguousActiveFact scope predicate qualifiers value = some f) :
    f ∈ db.facts ∧ f.scope = scope ∧ f.status = .active ∧ canonical f.value ≠ canonical value := by
  obtain ⟨p, -, hp⟩ := List.exists_of_findSome?_eq_some h
  have hm := List.mem_of_find?_eq_some hp
  have hc := List.find?_some hp
  simp only [decide_eq_true_eq] at hc
  exact ⟨hm, hc.1, hc.2.2.1, hc.2.2.2.2⟩

theorem openConflictSet_some {id : FactId} {s : ConflictSet}
    (h : db.openConflictSet scope id = some s) :
    s ∈ db.conflictSets ∧ s.scope = scope ∧ s.status = .open ∧ id ∈ s.factIds := by
  have hm := List.mem_of_find?_eq_some h
  have hc := List.find?_some h
  exact ⟨hm, of_decide_eq_true hc⟩

theorem openConflictSet_none {id : FactId} (h : db.openConflictSet scope id = none)
    {s : ConflictSet} (hs : s ∈ db.conflictSets) (hsc : s.scope = scope) (ho : s.status = .open) :
    id ∉ s.factIds := by
  have := List.find?_eq_none.mp h s hs
  simpa [hsc, ho] using this

end Db

end Haki
