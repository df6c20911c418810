import Haki.Consolidator.Step

/-!
# The synonyms a candidate teaches

Resolving the fact a candidate is compared with is the one place where a
predicate alias is learned, and it is one of the subject of the event.
-/

namespace Haki

open Data Control

variable {env : Env} {db db' : Db} {c c' : Candidate} {embedding : Embedding} {event : Event}
  {result result' : JobResult} {P : Db → Prop}

/-- Resolving a candidate changes nothing, or learns one alias. -/
theorem resolveExistingFact_learns (env : Env) {scope : Scope} (predicate : String)
    (qualifiers : Dict) (embedding : Embedding) (hP : P db)
    (hlearn : ∀ canonical, P (db.learnAlias scope predicate canonical)) :
    P (db.resolveExistingFact env scope predicate qualifiers embedding).2 := by
  rw [Db.resolveExistingFact]
  split
  · exact hP
  · split
    · exact hP
    · split
      · exact hP
      · split
        · exact hP
        · split
          · exact hlearn _
          · exact hP

theorem matchTarget_learns (hP : P db)
    (hlearn : ∀ predicate canonical, P (db.learnAlias event.scope predicate canonical)) :
    P (matchTarget env db c embedding event).2 := by
  have hresolve := resolveExistingFact_learns env c.targetPredicate c.qualifiers embedding hP
    (hlearn c.targetPredicate)
  rw [matchTarget]
  dsimp only
  split
  · split <;> exact hresolve
  · exact hresolve

/-- Matching changes nothing but what it learns. -/
theorem matchCandidate_learns (hP : P db)
    (hlearn : ∀ db predicate canonical, P db → P (db.learnAlias event.scope predicate canonical)) :
    P (matchCandidate env db c embedding event).2 := by
  rw [matchCandidate]
  split
  · exact matchTarget_learns hP fun _ _ ↦ hlearn _ _ _ hP
  · split
    · exact hP
    · have hresolve := resolveExistingFact_learns env c.targetPredicate c.qualifiers embedding hP
        fun canonical ↦ hlearn db c.targetPredicate canonical hP
      split
      · next h =>
        rw [h] at hresolve
        exact hresolve
      · next h =>
        rw [h] at hresolve
        exact matchTarget_learns hresolve fun _ _ ↦ hlearn _ _ _ hresolve

/-- The aliases after a candidate are those its matching leaves. -/
theorem applyCandidate_predicateAliases (hu : db.UniqueActive)
    (h : applyCandidate env db c embedding event result = .ok (db', result')) :
    db'.predicateAliases = (matchCandidate env db c embedding event).2.predicateAliases := by
  obtain ⟨aliases, hsnd⟩ := matchCandidate_snd env db c embedding event
  rw [applyCandidate] at h
  cases hm : matchCandidate env db c embedding event with
  | mk found db₁ =>
    obtain rfl : db₁ = { db with predicateAliases := aliases } :=
      (congrArg Prod.snd hm).symm.trans hsnd
    rw [hm] at h
    cases found with
    | duplicate f =>
      have hdb : _ = db' := congrArg Prod.fst (Except.ok.inj h)
      rw [← hdb, reinforceOrCountDuplicate]
      split <;> rfl
    | against c' existing =>
      have hactive := (matchCandidate_against (congrArg Prod.fst hm)).active
      have hu₁ : ({ db with predicateAliases := aliases } : Db).UniqueActive := hu
      have h := (adjudicate_eq hu₁ fun old ho ↦
        ⟨(hactive old ho).1, (hactive old ho).2.2⟩).symm.trans h
      obtain ⟨row, -, h⟩ := bind_eq_ok.mp h
      obtain ⟨e, -, h⟩ := bind_eq_ok.mp h
      obtain ⟨db₂, hflush, h⟩ := bind_eq_ok.mp h
      obtain ⟨rfl, -⟩ := flush_eq_ok.mp hflush
      have hdb : _ = db' := congrArg Prod.fst (Except.ok.inj h)
      rw [← hdb]
      rfl

/-- A candidate leaves the aliases that are there, and those it teaches are of the subject of its
event. -/
theorem applyCandidate_learned (hu : db.UniqueActive)
    (h : applyCandidate env db c embedding event result = .ok (db', result')) :
    ∀ a ∈ db'.predicateAliases, a ∈ db.predicateAliases ∨ a.scope = event.scope := by
  rw [applyCandidate_predicateAliases hu h]
  refine matchCandidate_learns (P := fun db₁ ↦ ∀ a ∈ db₁.predicateAliases,
    a ∈ db.predicateAliases ∨ a.scope = event.scope) (fun _ ha ↦ .inl ha) ?_
  intro db₁ predicate canonical hP a ha
  rcases Table.mem_of_mem_insert ha with ha | rfl
  · exact hP a ha
  · exact .inr rfl

end Haki
