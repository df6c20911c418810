import Haki.Data.Canonical
import Haki.Sample

/-!
# One identity, two equalities

The write path compares identity qualifiers as canonical text, its SQL filter
and the partial unique index as `jsonb`.  The two agree on a pair of objects
unless it is the same up to the way its numbers are written.
-/

namespace Haki

open Data Control

theorem identityQualifiers_wellFormed {qualifiers : Dict} (h : qualifiers.WellFormed) :
    (identityQualifiers qualifiers).WellFormed := by
  intro n hn
  refine h n ?_
  rw [Json.numbers, numbersEntries_eq, List.mem_flatMap] at hn ⊢
  obtain ⟨e, he, hn⟩ := hn
  exact ⟨e, (Table.mem_filter.mp he).1, hn⟩

/-- **One notion of identity.**  The text comparison of the write path and the `jsonb` comparison of
the index agree on a fact and a candidate's qualifiers exactly when these are not respelled.  The
qualifiers of the fact are what the `jsonb` column returns, which may be written otherwise than what
was stored: `1e16` comes back as an integer, `-0.0` as `0.0`. -/
theorem identityQualifiers_agree_iff {f : Fact} {qualifiers : Dict} (hf : f.qualifiers.WellFormed)
    (hq : qualifiers.WellFormed) :
    (identityQualifiersMatch f qualifiers ↔ identityQualifiersSql f qualifiers) ↔
      ¬ (identityQualifiers f.qualifiers).Respelled (identityQualifiers qualifiers) := by
  rw [identityQualifiersMatch, identityQualifiersSql, decide_eq_true_iff, decide_eq_true_iff]
  exact Dict.canonical_iff_toJsonb (identityQualifiers_wellFormed hf)
    (identityQualifiers_wellFormed hq)

namespace Sample

/-- Qualifiers that name a floor. -/
def onFloor (floor : PyNumber) : Dict := Table.empty.insert ("floor", .num floor)

theorem onFloor_wellFormed {floor : PyNumber} (h : floor.WellFormed) :
    (onFloor floor).WellFormed := by
  intro n hn
  obtain rfl : n = floor := by simpa [Json.numbers, numbersEntries, onFloor, Table.insert] using hn
  exact h

/-- Floor 1, as somebody told it. -/
def toldFloor : Dict := (onFloor (.int 1)).set "attributed_to" (.str "Ann")

theorem toldFloor_wellFormed : toldFloor.WellFormed := by
  intro n hn
  have hn : n ∈ [PyNumber.int 1] := hn
  obtain rfl := List.mem_singleton.mp hn
  trivial

theorem isFloatRepr_one : IsFloatRepr "1.0" := by simp [IsFloatRepr, isNumberChar]

/-- The name on the door of floor 1. -/
def doorplate : Db :=
  runOps .sample .empty (observe (event 1 .trusted)
    [{ create "doorplate" "Lyon" with qualifiers := onFloor (.int 1) }])

end Sample

/-- The fact has the qualifiers it was declared with. -/
theorem doorplate_qualifiers :
    ∃ f ∈ Sample.doorplate.facts, f.qualifiers = Sample.onFloor (.int 1) := by
  have h : ∃ f ∈ Sample.doorplate.facts, f.qualifiers.rows = [("floor", .num (.int 1))] := by
    decide +kernel
  obtain ⟨f, hf, hq⟩ := h
  exact ⟨f, hf, Table.ext hq⟩

/-- Floor 1, as somebody told it, and floor 2: the comparisons agree that the one is the floor of the
fact, and that the other is not. -/
theorem identityQualifiers_agree_floor : ∃ f ∈ Sample.doorplate.facts,
    (identityQualifiersMatch f Sample.toldFloor ↔
      identityQualifiersSql f Sample.toldFloor) ∧
    identityQualifiersMatch f Sample.toldFloor ∧
    (identityQualifiersMatch f (Sample.onFloor (.int 2)) ↔
      identityQualifiersSql f (Sample.onFloor (.int 2))) ∧
    ¬ identityQualifiersMatch f (Sample.onFloor (.int 2)) := by
  obtain ⟨f, hf, hq⟩ := doorplate_qualifiers
  have hfloor (n : ℤ) : (Sample.onFloor (.int n)).WellFormed := Sample.onFloor_wellFormed trivial
  have hfact : f.qualifiers.WellFormed := hq ▸ hfloor 1
  refine ⟨f, hf, ?_, ?_, ?_, ?_⟩
  · refine (identityQualifiers_agree_iff hfact Sample.toldFloor_wellFormed).mpr ?_
    rw [hq]
    exact fun h ↦ h.2 (by decide +kernel)
  · rw [identityQualifiersMatch, hq]
    decide +kernel
  · refine (identityQualifiers_agree_iff hfact (hfloor 2)).mpr ?_
    rw [hq]
    exact fun h ↦ absurd h.1 (by decide +kernel)
  · rw [identityQualifiersMatch, hq]
    decide +kernel

/-- `1` and `1.0` are different texts and one `jsonb` number: a value for floor 1.0 is a new identity
to the write path, and the index refuses it next to the active value for floor 1. -/
theorem respelled_identity_refused :
    ∃ f ∈ Sample.doorplate.facts, ∃ c : Candidate,
      Reachable .sample Op.IsConsolidation Sample.doorplate ∧
      f.qualifiers.WellFormed ∧ c.qualifiers.WellFormed ∧
      ¬ (identityQualifiersMatch f c.qualifiers ↔ identityQualifiersSql f c.qualifiers) ∧
      applyCandidate .sample Sample.doorplate c (candidateEmbedding .sample c)
        (Sample.event 2 .trusted) {} = .error .uniqueViolation := by
  obtain ⟨f, hf, hq⟩ := doorplate_qualifiers
  refine ⟨f, hf, { Sample.create "doorplate" "Nice" with
      qualifiers := Sample.onFloor (.float "1.0") },
    ⟨_, Sample.observe_isConsolidation, rfl⟩, hq ▸ Sample.onFloor_wellFormed trivial,
    Sample.onFloor_wellFormed Sample.isFloatRepr_one, ?_,
    failure?_eq_some.mp (by decide +kernel)⟩
  rw [identityQualifiersMatch, identityQualifiersSql, hq]
  decide +kernel

end Haki
