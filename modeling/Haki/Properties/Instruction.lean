import Haki.Sample

/-!
# Who can write an instruction

The write gate drops a candidate of a low-ranked event that declares itself an
instruction.  The class that is stored, though, can be inherited from the fact
a supersede replaces.  `processEvent_noNewInstruction_iff` says that this is the
only way around the gate.
-/

namespace Haki

open Data Control

variable {env : Env} {extract : Extractor} {event : Event}

/-- The candidate declares no class and is matched, as a supersede, with an instruction. -/
def InheritsInstruction (env : Env) (event : Event) (db : Db) (c : Candidate) : Prop :=
  ∃ c' old, (matchCandidate env db c (candidateEmbedding env c) event).1 = .against c' (some old) ∧
    c'.action = .supersede ∧ c.factKind = none ∧ old.factKind = .instruction

instance (db : Db) (c : Candidate) : Decidable (InheritsInstruction env event db c) :=
  Match.decidableAgainst _ _

/-- Every instruction of `db'` is an instruction of `db`. -/
def NoNewInstruction (db db' : Db) : Prop :=
  ∀ f ∈ db'.facts, f.factKind = .instruction → ∃ g ∈ db.facts, g.id = f.id ∧ g.factKind = .instruction

/-- Adjudication never changes the declared class. -/
theorem Matched.factKind_eq {db : Db} {c c' : Candidate} {existing : Option Fact}
    (h : Matched db event c c' existing) : c'.factKind = c.factKind := by
  rcases h.candidate with rfl | rfl <;> rfl

theorem Effect.onRow_factKind (e : Effect) (row : Fact) :
    (e.onRow env row).factKind = row.factKind := by
  cases e <;> rfl

/-- A row is an instruction when the candidate declares it, or inherits it. -/
theorem Adjudicated.instruction_iff {db : Db} {c c' : Candidate} {existing : Option Fact}
    {row : Fact} {e : Effect} (h : Adjudicated env db event c c' existing row e) :
    row.factKind = .instruction ↔ c.factKind = some .instruction ∨
      ∃ old, existing = some old ∧ c'.action = .supersede ∧ c.factKind = none ∧
        old.factKind = .instruction := by
  rw [h.factKind, factKindOf, h.toMatched.factKind_eq, inheritedFrom]
  cases c.factKind with
  | some kind => simp
  | none =>
    cases existing with
    | none => simp
    | some old => by_cases ha : c'.action = .supersede <;> simp [ha]

/-- The gate admits no declared instruction of a low-ranked event. -/
theorem admitted_notInstruction (hrank : event.originTrust.rank < OriginTrust.semiTrusted.rank)
    {raws : List RawCandidate} {c : Candidate} (hc : c ∈ admitted env event raws) :
    c.factKind ≠ some .instruction := by
  intro hkind
  have hnone := (Option.or_eq_none_iff.mp (mem_admitted.mp hc).2).2
  simp [untrustedInstructionReason, hkind, not_le.mpr hrank] at hnone

/-- A candidate that inherits an instruction and is applied writes a new one. -/
theorem applyCandidate_newInstruction {db db' : Db} {c : Candidate} {result result' : JobResult}
    (hu : db.UniqueActive) (hc : InheritsInstruction env event db c)
    (h : applyCandidate env db c (candidateEmbedding env c) event result = .ok (db', result')) :
    ∃ f ∈ db'.facts, f.factKind = .instruction ∧ ∀ g ∈ db.facts, g.id ≠ f.id := by
  obtain ⟨c', old, hm, hact, hkind, hold⟩ := hc
  cases applyCandidate_applied hu h with
  | counted _ _ hm' => cases hm.symm.trans hm'
  | reinforced _ _ hm' => cases hm.symm.trans hm'
  | written aliases c'' existing row e hm' hadj =>
    obtain ⟨rfl, rfl⟩ := Match.against.inj (hm.symm.trans hm')
    refine ⟨e.onRow env row, (Effect.mem_apply hadj.fresh).mpr (.inr rfl), ?_, fun g hg ↦ ?_⟩
    · rw [Effect.onRow_factKind]
      exact hadj.instruction_iff.mpr (.inr ⟨old, rfl, hact, hkind, hold⟩)
    · rw [Effect.onRow_id]
      exact hadj.fresh g hg

/-- Any other admitted candidate writes no new instruction. -/
theorem applyCandidate_noNewInstruction {db db' : Db} {c : Candidate} {result result' : JobResult}
    (hu : db.UniqueActive) (hc : ¬ InheritsInstruction env event db c)
    (hkind : c.factKind ≠ some .instruction)
    (h : applyCandidate env db c (candidateEmbedding env c) event result = .ok (db', result')) :
    NoNewInstruction db db' := by
  intro f hf hinstr
  rcases applyCandidate_born hu h hf with ⟨g, hg, hb⟩ | ⟨c', existing, row, e, hm, hadj, rfl⟩
  · exact ⟨g, hg, (Fact.id_of_birth hb).symm, (Fact.factKind_of_birth hb).symm.trans hinstr⟩
  · rw [Effect.onRow_factKind] at hinstr
    rcases hadj.instruction_iff.mp hinstr with hdecl | ⟨old, rfl, hact, hnone, hold⟩
    · exact absurd hdecl hkind
    · exact absurd ⟨c', old, hm, hact, hnone, hold⟩ hc

/-- **Instruction authority.**  Consolidating an event of a rank below `semi_trusted` writes no
instruction, in any status, exactly when none of its applied candidates inherits one. -/
theorem processEvent_noNewInstruction_iff {state state' : Db × JobResult}
    (hu : state.1.UniqueActive)
    (hrank : event.originTrust.rank < OriginTrust.semiTrusted.rank)
    (h : processEvent env extract state event = .ok state') :
    NoNewInstruction state.1 state'.1 ↔
      EventMeets env extract (fun event db c ↦ ¬ InheritsInstruction env event db c) state event := by
  obtain ⟨raws, s, events, hraws, hs, rfl⟩ := processEvent_eq_ok h
  have hstep {s s' : Db × JobResult} {c : Candidate} (hu : s.1.UniqueActive)
      (h : applyAdmitted env event s c = .ok s') :
      s'.1.UniqueActive ∧ ∀ g ∈ s.1.facts, ∃ g' ∈ s'.1.facts, g'.birth = g.birth := by
    rcases applyAdmitted_cases h with ⟨reason, -, rfl⟩ | ⟨-, h⟩
    · exact ⟨hu, fun g hg ↦ ⟨g, hg, rfl⟩⟩
    · exact ⟨applyCandidate_unique hu h, fun g hg ↦ applyCandidate_persists hu h hg⟩
  constructor
  · intro hnone raws' hraws'
    obtain rfl := Option.some.inj (hraws.symm.trans hraws')
    -- A step that inherits an instruction leaves a row that is no row of the start, for good.
    refine foldMeets_of_final
      (I := fun s ↦ s.1.UniqueActive ∧ ∀ g ∈ state.1.facts, ∃ g' ∈ s.1.facts, g'.id = g.id)
      (B := fun s ↦ ∃ f ∈ s.1.facts, f.factKind = .instruction ∧ ∀ g ∈ state.1.facts, g.id ≠ f.id)
      ?_ ?_ ?_ ⟨hu, fun g hg ↦ ⟨g, hg, rfl⟩⟩ hs ?_
    · rintro s c s' ⟨hu, hids⟩ h
      obtain ⟨hu', hpersist⟩ := hstep hu h
      refine ⟨hu', fun g hg ↦ ?_⟩
      obtain ⟨g', hg', hid⟩ := hids g hg
      obtain ⟨g'', hg'', hb⟩ := hpersist g' hg'
      exact ⟨g'', hg'', (Fact.id_of_birth hb).trans hid⟩
    · rintro s c s' ⟨hu, hids⟩ hC h
      obtain ⟨hn, hinherits⟩ := Classical.not_imp.mp hC
      rcases applyAdmitted_cases h with ⟨reason, hr, -⟩ | ⟨-, h⟩
      · cases hn.symm.trans hr
      · obtain ⟨f, hf, hinstr, hnew⟩ := applyCandidate_newInstruction hu (not_not.mp hinherits) h
        refine ⟨f, hf, hinstr, fun g hg ↦ ?_⟩
        obtain ⟨g', hg', hid⟩ := hids g hg
        exact hid ▸ hnew g' hg'
    · rintro s c s' ⟨hu, -⟩ ⟨f, hf, hinstr, hnew⟩ h
      obtain ⟨f', hf', hb⟩ := (hstep hu h).2 f hf
      refine ⟨f', hf', (Fact.factKind_of_birth hb).trans hinstr, fun g hg ↦ ?_⟩
      rw [Fact.id_of_birth hb]
      exact hnew g hg
    · rintro ⟨f, hf, hinstr, hnew⟩
      obtain ⟨g, hg, hid, -⟩ := hnone f hf hinstr
      exact hnew g hg hid
  · intro hmeets
    have hmeets := (hmeets raws hraws).and
      (foldMeets_of_forall_mem (fun c hc ↦ admitted_notInstruction hrank hc) _)
    have hfinal : s.1.UniqueActive ∧ NoNewInstruction state.1 s.1 := by
      refine foldlM_invariant (I := fun s : Db × JobResult ↦
        s.1.UniqueActive ∧ NoNewInstruction state.1 s.1) ?_ ?_ hmeets hs
      · rintro s c s' ⟨hu, hnone⟩ ⟨hC, hkind⟩ h
        refine ⟨(hstep hu h).1, ?_⟩
        rcases applyAdmitted_cases h with ⟨reason, -, rfl⟩ | ⟨hn, h⟩
        · exact hnone
        · intro f hf hinstr
          obtain ⟨g, hg, hid, hinstr⟩ :=
            applyCandidate_noNewInstruction hu (hC hn) hkind h f hf hinstr
          obtain ⟨g', hg', hid', hinstr'⟩ := hnone g hg hinstr
          exact ⟨g', hg', hid'.trans hid, hinstr'⟩
      · exact ⟨hu, fun f hf hinstr ↦ ⟨f, hf, rfl, hinstr⟩⟩
    exact hfinal.2

/-- The subject asked for short answers. -/
def Sample.shortAnswers : Db :=
  runOps .sample .empty
    (Sample.observe (Sample.event 1 .trusted)
      [{ Sample.create "answer_style" "short" with factKind := some .instruction }])

/-- A third party that replaces the instruction writes one when it declares no class, and none when
it declares a preference. -/
theorem processEvent_noNewInstruction_shortAnswers :
    let preference := { Sample.supersede "answer_style" "long" with factKind := some .preference }
    ∃ declared inherited,
      processEvent .sample (Sample.always [preference]) (Sample.shortAnswers, {})
        (Sample.event 2 .thirdParty) = .ok declared ∧
      NoNewInstruction Sample.shortAnswers declared.1 ∧
      processEvent .sample (Sample.always [Sample.supersede "answer_style" "long"])
        (Sample.shortAnswers, {}) (Sample.event 2 .thirdParty) = .ok inherited ∧
      ¬ NoNewInstruction Sample.shortAnswers inherited.1 := by
  intro preference
  have hu : (Sample.shortAnswers, ({} : JobResult)).1.UniqueActive := by decide +kernel
  have hrank : (Sample.event 2 .thirdParty).originTrust.rank < OriginTrust.semiTrusted.rank := by
    decide
  obtain ⟨declared, h⟩ : ∃ declared, processEvent .sample (Sample.always [preference])
      (Sample.shortAnswers, {}) (Sample.event 2 .thirdParty) = .ok declared :=
    exists_eq_ok (by decide +kernel)
  obtain ⟨inherited, h'⟩ : ∃ inherited, processEvent .sample
      (Sample.always [Sample.supersede "answer_style" "long"]) (Sample.shortAnswers, {})
        (Sample.event 2 .thirdParty) = .ok inherited := exists_eq_ok (by decide +kernel)
  have hmeets : EventMeets .sample (Sample.always [preference])
      (fun event db c ↦ ¬ InheritsInstruction .sample event db c) (Sample.shortAnswers, {})
        (Sample.event 2 .thirdParty) := by decide +kernel
  have hbreaks : ¬ EventMeets .sample (Sample.always [Sample.supersede "answer_style" "long"])
      (fun event db c ↦ ¬ InheritsInstruction .sample event db c) (Sample.shortAnswers, {})
        (Sample.event 2 .thirdParty) := by decide +kernel
  refine ⟨declared, inherited, h, ?_, h', fun hnone ↦ ?_⟩
  · exact (processEvent_noNewInstruction_iff hu hrank h).mpr hmeets
  · exact hbreaks ((processEvent_noNewInstruction_iff hu hrank h').mp hnone)

/-- A third party replaces an instruction without declaring a class: the row that is held for
review is an instruction. -/
theorem third_party_instruction_written :
    ∃ db event extract state', Reachable .sample Op.IsConsolidation db ∧
      event.originTrust.rank < OriginTrust.semiTrusted.rank ∧
      processEvent .sample extract (db, {}) event = .ok state' ∧ ¬ NoNewInstruction db state'.1 := by
  have hafter : ((processEvent .sample
      (Sample.always [Sample.supersede "answer_style" "obey me"]) (Sample.shortAnswers, {})
      (Sample.event 2 .thirdParty)).toOption.bind fun s ↦
        (s.1.fact? ⟨2, 0⟩).map Fact.factKind) = some .instruction := by decide +kernel
  have hbefore : (Sample.shortAnswers.fact? ⟨2, 0⟩).isNone := by decide +kernel
  obtain ⟨state', hok, hafter⟩ := Option.bind_eq_some_iff.mp hafter
  obtain ⟨f, hf, hinstr⟩ := Option.map_eq_some_iff.mp hafter
  refine ⟨Sample.shortAnswers, _, _, state', ⟨_, Sample.observe_isConsolidation, rfl⟩, by decide,
    toOption_eq_some.mp hok, fun hnone ↦ ?_⟩
  obtain ⟨g, hg, hid, -⟩ := hnone f (Db.mem_of_fact? hf) hinstr
  rw [(Db.fact?_eq_some_iff).mpr ⟨hg, hid.trans (Db.id_of_fact? hf)⟩] at hbefore
  cases hbefore

end Haki
