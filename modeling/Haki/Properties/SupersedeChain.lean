import Haki.Control.Chain
import Haki.Data.Dict
import Haki.Properties.Forms
import Haki.Properties.Uniqueness

/-!
# A chain of supersedes is a fold

Every update of an identity is adjudicated on its own: it reinforces the active
fact when it says the same, and replaces it when it says something else, also
when that was said before.  On values all of these are one step, `Dict.revise`,
so a chain of updates leaves the fold of its values behind.
-/

namespace Haki

open Data Control

/-- A candidate that is applied at some time, for an event. -/
structure Update where
  now : Timestamp
  event : Event
  candidate : Candidate

/-- Apply an update. -/
def applyUpdate (env : Env) (state : Db × JobResult) (u : Update) :
    Except LedgerError (Db × JobResult) :=
  applyCandidate (env.at u.now) state.1 u.candidate (candidateEmbedding (env.at u.now) u.candidate)
    u.event state.2

section

variable {env : Env} {db db' : Db} {i : Identity} {f g : Fact} {event : Event} {c : Candidate}
  {embedding : Embedding} {u : Update} {updates : List Update}

/-! ## Identities with one active fact -/

/-- The fact is the active fact of the identity, and a state. -/
structure Db.Holds (db : Db) (i : Identity) (f : Fact) : Prop where
  mem : f ∈ db.facts
  current : f.Current
  identity : f.identity = i
  only : ∀ g ∈ db.facts, g.status = .active → g.identity = i → g = f

/-- No key of the value is null, and the numbers are those of decoded documents. -/
structure Fact.Plain (f : Fact) : Prop where
  noNull : f.value.NoNull
  value : f.value.WellFormed
  qualifiers : (identityQualifiers f.qualifiers).WellFormed

/-- The update supersedes the fact of the identity: its event may replace it, and its dates can be
read. -/
structure Update.Continues (env : Env) (i : Identity) (db : Db) (u : Update) : Prop where
  supersede : u.candidate.action = .supersede
  target : u.candidate.supersedesPredicate = none
  identity : u.candidate.identity u.event = i
  value : u.candidate.value.WellFormed
  qualifiers : u.candidate.qualifiers.WellFormed
  admitted : ∀ f, db.Holds i f →
    ¬ HeldBack u.event (some f) ∧ DatesParse env u.candidate (some f) u.event

/-- What an update makes of the active fact: it stays, or it is replaced, and then what the candidate
omits is inherited.  A period that neither has is read from a phrase of the value. -/
structure Revised (env : Env) (u : Update) (f g : Fact) : Prop where
  value : g.value.Same (f.value.revise u.candidate.value)
  replaces : g.id ≠ f.id → g.supersedesId = some f.id
  factKind : g.id ≠ f.id → g.factKind = u.candidate.factKind.getD f.factKind
  volatility : g.id ≠ f.id → g.volatility = u.candidate.volatility.getD f.volatility
  temporalRange : g.id ≠ f.id → ∀ range ∈ u.candidate.temporalRange.or f.temporalRange,
    g.temporalRange = some range
  phrase : g.id ≠ f.id → u.candidate.temporalRange.or f.temporalRange = none →
    g.temporalRange = none ∨
      env.resolveRelativeRange u.candidate.value u.event.occurredAt = some g.temporalRange

/-- An update takes the active fact of one ledger to that of the next. -/
def Revision (env : Env) (i : Identity) (s : Db × JobResult) (u : Update) (t : Db × JobResult) :
    Prop :=
  ∃ f g, s.1.Holds i f ∧ t.1.Holds i g ∧ Revised env u f g

/-! ## Matching -/

namespace Db.Holds

theorem of_ids (hf : f ∈ db.facts) (hc : f.Current) (hi : f.identity = i)
    (h : ∀ g ∈ db.facts, g.status = .active → g.identity = i → g.id = f.id) : db.Holds i f :=
  ⟨hf, hc, hi, fun g hg ha hgi ↦ Db.eq_of_id_eq hg hf (h g hg ha hgi)⟩

/-- The identity resolves to its fact. -/
theorem resolve (h : db.Holds i f) (hi : c.identity event = i)
    (ht : c.targetPredicate = c.predicate) :
    db.resolveExistingFact env event.scope c.targetPredicate c.qualifiers embedding =
      (some f, db) := by
  have hf : f.identity =
      ⟨event.scope, c.targetPredicate, canonical (identityQualifiers c.qualifiers)⟩ := by
    rw [h.identity, ← hi, Candidate.identity, ht]
  obtain ⟨old, hold, hoi⟩ := Db.activeFact_isSome h.mem h.current.1 hf
  obtain ⟨hmem, -, -, hactive, -⟩ := Db.activeFact_some hold
  obtain rfl := h.only old hmem hactive (hoi.trans h.identity)
  rw [Db.resolveExistingFact, hold]

theorem matchTarget (h : db.Holds i f) (hc : c.action = .supersede) (hi : c.identity event = i)
    (ht : c.targetPredicate = c.predicate) :
    (matchTarget env db c embedding event).1 = .against c (some f) := by
  rw [Haki.matchTarget, h.resolve hi ht]
  simp only [Option.some_or]
  rw [if_neg (by simp [hc])]

/-- An update says what the fact says, or is adjudicated against it. -/
theorem matchCandidate (env : Env) (embedding : Embedding) (h : db.Holds i f)
    (hc : c.action = .supersede) (hi : c.identity event = i)
    (ht : c.targetPredicate = c.predicate) :
    ((matchCandidate env db c embedding event).1 = .duplicate f ∧
      canonical f.value = canonical c.value) ∨
    (matchCandidate env db c embedding event).1 = .against c (some f) := by
  rw [Haki.matchCandidate]
  split
  · exact .inr (h.matchTarget hc hi ht)
  · next d hd =>
    obtain ⟨hmem, hs, hp, -, -, hv, hq⟩ := Db.mem_duplicates.mp (Db.findDuplicate_some hd)
    split
    · next hactive =>
      refine .inl ?_
      have hd : d.identity = i := by
        rw [← hi, Fact.identity, Candidate.identity, hs, hp, of_decide_eq_true hq]
      obtain rfl := h.only d hmem hactive hd
      exact ⟨rfl, hv⟩
    · -- The value comes back, and what it replaces is the same fact.
      rw [h.resolve hi ht]
      have hsupersede : { c with action := .supersede } = c := by rw [← hc]
      dsimp only
      rw [hsupersede]
      exact .inr (h.matchTarget hc hi ht)

/-- It is a matter of the facts alone. -/
theorem of_facts (h : db.Holds i f) (hfacts : db'.facts = db.facts) : db'.Holds i f := by
  refine ⟨?_, h.current, h.identity, ?_⟩
  · rw [hfacts]
    exact h.mem
  · rw [hfacts]
    exact h.only

/-! ## Reinforcing -/

theorem reinforced (h : db.Holds i f) (event : Event) :
    (db.updateFact f.id (·.reinforcedBy event)).Holds i (f.reinforcedBy event) where
  mem := mem_reinforced.mpr ⟨f, h.mem, if_pos rfl⟩
  current := h.current
  identity := h.identity
  only := by
    intro g' hg' hactive hi
    obtain ⟨g, hg, rfl⟩ := mem_reinforced.mp hg'
    by_cases hid : g.id = f.id
    · rw [if_pos hid, Db.eq_of_id_eq hg h.mem hid]
    · rw [if_neg hid] at hactive hi
      exact absurd (congrArg Fact.id (h.only g hg hactive hi)) hid

/-! ## Replacing -/

/-- The row of an update takes the place of the fact. -/
theorem replaced {row : Fact} (h : db.Holds i f) (hf : db.facts.Fresh row)
    (hform : row.memoryForm = .state) (hi : row.identity = i) :
    (Effect.apply env event db row (.replace f)).Holds i (Effect.onRow env (.replace f) row) where
  mem := (Effect.mem_apply hf).mpr (.inr rfl)
  current := ⟨rfl, hform⟩
  identity := hi
  only := by
    intro g' hg' hactive hg'i
    rcases (Effect.mem_apply hf).mp hg' with ⟨g, hg, rfl⟩ | rfl
    · by_cases hid : g.id = f.id
      · rw [Effect.onFact, if_pos hid] at hactive
        cases hactive
      · rw [Effect.onFact, if_neg hid] at hactive hg'i
        exact absurd (congrArg Fact.id (h.only g hg hactive hg'i)) hid
    · rfl

/-- No other fact has the slot that the row of an update takes. -/
theorem slot (h : db.Holds i f) (hu : db.UniqueActive)
    (hq : (identityQualifiers f.qualifiers).WellFormed)
    (hq' : (identityQualifiers c.qualifiers).WellFormed) (hi : c.identity event = i)
    (hg : g ∈ db.facts) (hgc : g.Current)
    (hkey : g.HasKey event.scope c.predicate (attributed c.qualifiers event)) : g.id = f.id := by
  obtain ⟨hfs, hfp, hfq⟩ := Identity.mk.inj (h.identity.trans hi.symm)
  obtain ⟨hs, hp, hsql⟩ := hkey
  refine hu g hg hgc f h.mem h.current ⟨hs.trans hfs.symm, hp.trans hfp.symm, ?_⟩
  have hjsonb := Dict.toJsonb_eq_of_canonical hq hq' hfq
  have hsql : (identityQualifiers g.qualifiers).toJsonb =
      (identityQualifiers (attributed c.qualifiers event)).toJsonb := of_decide_eq_true hsql
  rw [identityQualifiers_attributed] at hsql
  exact decide_eq_true (hsql.trans hjsonb.symm)

end Db.Holds

theorem candidateRow_temporalRange {existing : Option Fact} {row : Fact}
    (h : candidateRow env db c existing embedding event = .ok row) :
    temporalRangeOf env c existing event = .ok row.temporalRange := by
  obtain ⟨classes, hclasses, h⟩ := bind_eq_ok.mp h
  obtain ⟨draft, hdraft, h⟩ := bind_eq_ok.mp h
  obtain ⟨range, hrange, hclasses⟩ := bind_eq_ok.mp hclasses
  obtain ⟨_, -, hdraft⟩ := bind_eq_ok.mp hdraft
  cases hclasses
  cases hdraft
  cases h
  exact hrange

theorem factKindOf_supersede (hc : c.action = .supersede) :
    factKindOf c (some f) = c.factKind.getD f.factKind := by
  rw [factKindOf, inheritedFrom, if_pos hc]
  cases c.factKind <;> rfl

theorem volatilityOf_supersede (hc : c.action = .supersede) :
    volatilityOf c (some f) = c.volatility.getD f.volatility := by
  rw [volatilityOf, inheritedFrom, if_pos hc]
  cases c.volatility <;> rfl

/-- The period of a replacing row: declared, inherited, or read from the value. -/
theorem temporalRangeOf_supersede {range : Option TemporalRange} (hc : c.action = .supersede)
    (h : temporalRangeOf env c (some f) event = .ok range) :
    (∀ r ∈ c.temporalRange.or f.temporalRange, range = some r) ∧
      (c.temporalRange.or f.temporalRange = none →
        range = none ∨ env.resolveRelativeRange c.value event.occurredAt = some range) := by
  rw [temporalRangeOf, inheritedFrom, if_pos hc, Option.bind_some] at h
  cases ho : c.temporalRange.or f.temporalRange with
  | some r =>
    rw [ho] at h
    cases h
    exact ⟨fun _ hr ↦ hr, by rintro ⟨⟩⟩
  | none =>
    rw [ho] at h
    refine ⟨(by rintro _ ⟨⟩), fun _ ↦ ?_⟩
    obtain ⟨dates, -, h⟩ := bind_eq_ok.mp h
    split at h
    · exact .inr (orRaise_eq_ok.mp h)
    · exact .inl (Except.ok.inj h).symm

/-! ## One update -/

/-- A fact that stays is revised by an update that says the same. -/
theorem Revised.of_same (hid : g.id = f.id)
    (h : g.value.Same (f.value.revise u.candidate.value)) : Revised env u f g where
  value := h
  replaces := fun hne ↦ absurd hid hne
  factKind := fun hne ↦ absurd hid hne
  volatility := fun hne ↦ absurd hid hne
  temporalRange := fun hne ↦ absurd hid hne
  phrase := fun hne ↦ absurd hid hne

/-- An update that says what the fact says counts or reinforces it. -/
theorem applyUpdate_same {s : Db × JobResult} (hu : s.1.UniqueActive) (h : s.1.Holds i f)
    (hplain : f.Plain) (hvalue : u.candidate.value.WellFormed)
    (hm : (matchCandidate (env.at u.now) s.1 u.candidate
      (candidateEmbedding (env.at u.now) u.candidate) u.event).1 = .duplicate f)
    (hv : canonical f.value = canonical u.candidate.value) :
    ∃ t, applyUpdate env s u = .ok t ∧ t.1.UniqueActive ∧
      ∃ g, t.1.Holds i g ∧ g.Plain ∧ Revised env u f g := by
  obtain ⟨aliases, heq⟩ := applyCandidate_duplicate hm
  have hsame : (f.value.revise u.candidate.value).Same f.value :=
    ((Dict.canonical_eq_iff_same hplain.value hvalue).mp hv).revise_same hplain.noNull
  by_cases hstale : f.status ≠ .active ∨ u.event.id ∈ f.sourceEventIds
  · exact ⟨_, (heq s.2).trans (congrArg Except.ok (if_pos hstale)), hu, f, h.of_facts rfl, hplain,
      .of_same rfl hsame.symm⟩
  · have hok := (heq s.2).trans (congrArg Except.ok (if_neg hstale))
    exact ⟨_, hok, applyCandidate_unique hu hok, f.reinforcedBy u.event,
      (h.reinforced u.event).of_facts rfl, ⟨hplain.noNull, hplain.value, hplain.qualifiers⟩,
      .of_same rfl hsame.symm⟩

/-- An update that says something else replaces the fact. -/
theorem applyUpdate_replace {s : Db × JobResult} (hu : s.1.UniqueActive) (h : s.1.Holds i f)
    (hplain : f.Plain) (hc : u.Continues env i s.1)
    (hm : (matchCandidate (env.at u.now) s.1 u.candidate
      (candidateEmbedding (env.at u.now) u.candidate) u.event).1 = .against u.candidate (some f)) :
    ∃ t, applyUpdate env s u = .ok t ∧ t.1.UniqueActive ∧
      ∃ g, t.1.Holds i g ∧ g.Plain ∧ Revised env u f g := by
  obtain ⟨hheld, hdates⟩ := hc.admitted f h
  obtain ⟨aliases, heq⟩ := applyCandidate_against hu hm
  rcases candidateRow_cases (env.at u.now) s.1 u.candidate (some f)
    (candidateEmbedding (env.at u.now) u.candidate) u.event with ⟨-, row, hrow⟩ | ⟨herror, -⟩
  · have hfresh := candidateRow_fresh hrow
    have hq' : (identityQualifiers u.candidate.qualifiers).WellFormed :=
      Dict.wellFormed_iff.mpr fun entry hentry ↦
        Dict.wellFormed_iff.mp hc.qualifiers entry (Table.mem_filter.mp hentry).1
    have heffect : effectOf s.1 u.candidate (some f) row.memoryForm u.event = .ok (.replace f) :=
      effectOf_activates (matchCandidate_against hm) hheld (.inr hc.supersede)
    have hunique : ({ Effect.apply (env.at u.now) u.event s.1 row (.replace f) with
        predicateAliases := aliases } : Db).UniqueActive := by
      refine (unique_apply_iff hu (matchCandidate_against hm) hrow heffect).mpr ?_
      rintro ⟨-, -, -, g, hg, hgc, hkey, hne⟩
      exact hne f rfl (h.slot hu hplain.qualifiers hq' hc.identity hg hgc hkey)
    have hok := heq s.2
    rw [hrow, ok_bind, heffect, ok_bind, flush_of_unique hunique, ok_bind] at hok
    have hrange := temporalRangeOf_supersede hc.supersede (candidateRow_temporalRange hrow)
    obtain ⟨range, observedAt, rfl⟩ := candidateRow_eq_ok hrow
    have hvalue : storedValue u.candidate (some f) u.event = f.value.revise u.candidate.value := by
      rw [storedValue, if_neg hheld, carryForward, inheritedFrom, if_pos hc.supersede]
      rfl
    have hqualifiers : identityQualifiers (attributed u.candidate.qualifiers u.event) =
        identityQualifiers u.candidate.qualifiers := identityQualifiers_attributed _ _
    refine ⟨_, hok, hunique, _, (h.replaced hfresh h.current.2 ?_).of_facts rfl, ?_, ?_⟩
    · rw [← hc.identity, Candidate.identity, ← hqualifiers]
      rfl
    · exact
        { noNull := hvalue ▸ Dict.noNull_revise _ _
          value := hvalue ▸ hplain.value.revise hc.value
          qualifiers := hqualifiers ▸ hq' }
    · exact
        { value := hvalue ▸ Dict.Same.refl _
          replaces := fun _ ↦ rfl
          factKind := fun _ ↦ factKindOf_supersede hc.supersede
          volatility := fun _ ↦ volatilityOf_supersede hc.supersede
          temporalRange := fun _ ↦ hrange.1
          phrase := fun _ ↦ hrange.2 }
  · exact absurd hdates herror

/-- **Update step.**  An update of an identity succeeds, and revises its fact. -/
theorem applyUpdate_step {s : Db × JobResult} (hu : s.1.UniqueActive) (h : s.1.Holds i f)
    (hplain : f.Plain) (hc : u.Continues env i s.1) :
    ∃ t, applyUpdate env s u = .ok t ∧ t.1.UniqueActive ∧
      ∃ g, t.1.Holds i g ∧ g.Plain ∧ Revised env u f g := by
  have ht : u.candidate.targetPredicate = u.candidate.predicate := by
    rw [Candidate.targetPredicate, hc.target]
  rcases h.matchCandidate (env.at u.now) (candidateEmbedding (env.at u.now) u.candidate)
    hc.supersede hc.identity ht with ⟨hm, hv⟩ | hm
  · exact applyUpdate_same hu h hplain hc.value hm hv
  · exact applyUpdate_replace hu h hplain hc hm

/-! ## Chains of updates -/

/-- The values of the updates, one after the other. -/
def reviseAll (updates : List Update) (value : Dict) : Dict :=
  updates.foldl (fun value u ↦ value.revise u.candidate.value) value

theorem reviseAll_eq (updates : List Update) (value : Dict) :
    reviseAll updates value = (updates.map (·.candidate.value)).foldl Dict.revise value :=
  List.foldl_map.symm

/-- **A chain of supersedes is a fold.**  Updates of one identity all succeed; the active fact at the
end has the fold of their values; a key nobody restates survives, a null key removes and stays
removed until it is restated; and every replacing fact inherits what its candidate omits. -/
theorem supersede_chain_eq_fold {result : JobResult} (hu : db.UniqueActive) (h : db.Holds i f)
    (hplain : f.Plain) (hC : FoldMeets (applyUpdate env) (fun s u ↦ u.Continues env i s.1)
      (db, result) updates) :
    ∃ t g, updates.foldlM (applyUpdate env) (db, result) = .ok t ∧ t.1.Holds i g ∧
      g.value.Same (reviseAll updates f.value) ∧
      (∀ k, (∀ u ∈ updates, u.candidate.value.value? k = none) →
        (g.value.value? k).map Json.sorted = (f.value.value? k).map Json.sorted) ∧
      (∀ k pre u post, updates = pre ++ u :: post → u.candidate.value.value? k = some .null →
        (∀ x ∈ post, x.candidate.value.value? k = none) → g.value.value? k = none) ∧
      Steps (Revision env i) (db, result) updates t := by
  have hstep (s : Db × JobResult) (v : Dict) (u : Update)
      (hs : s.1.UniqueActive ∧ ∃ f, s.1.Holds i f ∧ f.Plain ∧ f.value.Same v)
      (hc : u.Continues env i s.1) : ∃ t, applyUpdate env s u = .ok t ∧ t.1.UniqueActive ∧
        ∃ f, t.1.Holds i f ∧ f.Plain ∧ f.value.Same (v.revise u.candidate.value) := by
    obtain ⟨hu, f, hf, hplain, hv⟩ := hs
    obtain ⟨t, ht, hu', g, hg, hplain', hrevised⟩ := applyUpdate_step hu hf hplain hc
    exact ⟨t, ht, hu', g, hg, hplain', hrevised.value.trans (hv.revise (.refl _))⟩
  obtain ⟨t, ht, -, g, hg, -, hvalue⟩ :=
    foldlM_simulates hstep ⟨hu, f, h, hplain, Dict.Same.refl _⟩ hC
  have hvalue : g.value.Same (reviseAll updates f.value) := hvalue
  refine ⟨t, g, ht, hg, hvalue, fun k hk ↦ ?_, fun k pre u post hsplit hnull hpost ↦ ?_, ?_⟩
  · rw [hvalue k, reviseAll_eq,
      Dict.value?_foldl_revise hplain.noNull (List.forall_mem_map.mpr hk)]
  · refine Option.map_eq_none_iff.mp ((hvalue k).trans (Option.map_eq_none_iff.mpr ?_))
    rw [reviseAll_eq, hsplit, List.map_append, List.map_cons]
    exact Dict.value?_foldl_revise_of_null hnull (List.forall_mem_map.mpr hpost)
  · refine Steps.of_foldlM (I := fun s ↦ s.1.UniqueActive ∧ ∃ f, s.1.Holds i f ∧ f.Plain)
      (fun s u t hs hc ht ↦ ?_) ⟨hu, f, h, hplain⟩ hC ht
    obtain ⟨hu, f, hf, hplain⟩ := hs
    obtain ⟨t', ht', hu', g, hg, hplain', hrevised⟩ := applyUpdate_step hu hf hplain hc
    obtain rfl := Except.ok.inj (ht.symm.trans ht')
    exact ⟨⟨hu', g, hg, hplain'⟩, f, g, hf, hg, hrevised⟩

/-- No date of the candidate is refused. -/
theorem datesParse_of_total {existing : Option Fact} (hdates : env.datesIn c.value = some [])
    (hrange : (env.resolveRelativeRange c.value event.occurredAt).isSome)
    (hobserved : ∀ value range, (env.observedAtOf value range).isSome) :
    DatesParse env c existing event := by
  obtain ⟨phrase, hphrase⟩ := Option.isSome_iff_exists.mp hrange
  obtain ⟨range, hok⟩ : ∃ range, temporalRangeOf env c existing event = .ok range := by
    rw [temporalRangeOf]
    cases c.temporalRange.or ((inheritedFrom c existing).bind Fact.temporalRange) with
    | some range => exact ⟨some range, rfl⟩
    | none => exact ⟨phrase, by rw [hdates, hphrase]; rfl⟩
  obtain ⟨observedAt, hat⟩ :=
    Option.isSome_iff_exists.mp (hobserved (storedValue c existing event) range)
  exact ⟨range, observedAt, hok, hat⟩

theorem OriginTrust.rank_le_trusted (trust : OriginTrust) :
    trust.rank ≤ OriginTrust.trusted.rank := by
  cases trust <;> decide

/-- A trusted event may replace any fact. -/
theorem not_heldBack_of_trusted {existing : Option Fact} (h : event.originTrust = .trusted) :
    ¬ HeldBack event existing := by
  rintro (⟨old, -, hrank⟩ | huntrusted)
  · rw [h] at hrank
    exact absurd hrank (Nat.not_lt.mpr old.originTrust.rank_le_trusted)
  · cases h.symm.trans huntrusted

end

/-! ## A trip -/

/-- The calendar in July 2026, for the one phrase of the sample. -/
def Env.calendar : Env :=
  { Env.sample with
    resolveRelativeRange := fun value _ ↦ some <|
      if value.value? "when" = some (.str "next month") then some ⟨"2026-08-01", "2026-08-31"⟩
      else none
    observedAtOf := fun _ range ↦ some (range.map fun _ ↦ 1785542400000000) }

namespace Sample

/-- A trip is planned. -/
def planned (env : Env) : Db :=
  runOps env .empty (observe (event 1784073600000000 .trusted)
    [{ create "trip" "planned" with value := (entry "status" "planned").set "city" (.str "Lyon") }])

/-- The trip. -/
def theTrip : Identity := (create "trip" "planned").identity (event 1784073600000000 .trusted)

/-- An update of the trip, some microseconds later. -/
def tripUpdate (n : Nat) (value : Dict) : Update :=
  ⟨1784073600000000 + n, event (1784073600000000 + n) .trusted,
    { supersede "trip" "" with value := value }⟩

/-- It is booked, and then without its city. -/
def tripUpdates : List Update :=
  [tripUpdate 1 (entry "status" "booked"), tripUpdate 2 (Table.empty.insert ("city", .null))]

theorem continues_tripUpdate {env : Env} {db : Db} {n : Nat} {value : Dict}
    (hvalue : (Json.obj value.rows).numbers = [])
    (hdates : ∀ existing, DatesParse env (tripUpdate n value).candidate existing
      (tripUpdate n value).event) : (tripUpdate n value).Continues env theTrip db where
  supersede := rfl
  target := rfl
  identity := rfl
  value := Dict.wellFormed_of_numbers hvalue
  qualifiers := Dict.wellFormed_of_numbers rfl
  admitted := fun f _ ↦ ⟨not_heldBack_of_trusted rfl, hdates (some f)⟩

end Sample

/-- The trip loses its city. -/
theorem supersede_chain_trip :
    ∃ t g, Sample.tripUpdates.foldlM (applyUpdate .sample) (Sample.planned .sample, {}) = .ok t ∧
      t.1.Holds Sample.theTrip g ∧ g.value.value? "city" = none := by
  obtain ⟨f, hf, hc, hi, ho, hnull, hvalue, hqualifiers⟩ : ∃ f ∈ (Sample.planned .sample).facts,
      f.Current ∧ f.identity = Sample.theTrip ∧ (∀ g ∈ (Sample.planned .sample).facts,
        g.status = .active → g.identity = Sample.theTrip → g.id = f.id) ∧
      (∀ entry ∈ f.value, entry.2 ≠ .null) ∧ (Json.obj f.value.rows).numbers = [] ∧
      (Json.obj (identityQualifiers f.qualifiers).rows).numbers = [] := by decide +kernel
  have hcontinues {n : Nat} {value : Dict} (h : (Json.obj value.rows).numbers = []) (db : Db) :
      (Sample.tripUpdate n value).Continues .sample Sample.theTrip db :=
    Sample.continues_tripUpdate h fun _ ↦ datesParse_of_total rfl rfl fun _ _ ↦ rfl
  have hmeets : FoldMeets (applyUpdate .sample) (fun s u ↦ u.Continues .sample Sample.theTrip s.1)
      (Sample.planned .sample, {}) Sample.tripUpdates :=
    ⟨hcontinues rfl _, fun s _ ↦ ⟨hcontinues rfl _, fun _ _ ↦ trivial⟩⟩
  obtain ⟨t, g, ht, hg, -, -, hremoved, -⟩ := supersede_chain_eq_fold (by decide +kernel)
    (.of_ids hf hc hi ho) ⟨Dict.noNull_iff.mpr hnull, Dict.wellFormed_of_numbers hvalue,
      Dict.wellFormed_of_numbers hqualifiers⟩ hmeets
  exact ⟨t, g, ht, hg, hremoved "city" [Sample.tripUpdate 1 (Sample.entry "status" "booked")] _ []
    rfl (by decide) (List.forall_mem_nil _)⟩

/-- A phrase of the new value is read as the period of the trip, which had none. -/
theorem phrase_fills_period :
    Reachable .calendar Op.IsConsolidation (Sample.planned .calendar) ∧
    (Sample.tripUpdate 1 (Sample.entry "when" "next month")).Continues .calendar Sample.theTrip
      (Sample.planned .calendar) ∧
    ∃ f t g, (Sample.planned .calendar).Holds Sample.theTrip f ∧ f.Plain ∧
      applyUpdate .calendar (Sample.planned .calendar, {})
        (Sample.tripUpdate 1 (Sample.entry "when" "next month")) = .ok t ∧
      t.1.Holds Sample.theTrip g ∧ g.id ≠ f.id ∧
      (Sample.tripUpdate 1 (Sample.entry "when" "next month")).candidate.temporalRange = none ∧
      g.temporalRange ≠ f.temporalRange := by
  have hcontinues : (Sample.tripUpdate 1 (Sample.entry "when" "next month")).Continues .calendar
      Sample.theTrip (Sample.planned .calendar) :=
    Sample.continues_tripUpdate rfl fun _ ↦ datesParse_of_total rfl rfl fun _ _ ↦ rfl
  refine ⟨⟨_, Sample.observe_isConsolidation, rfl⟩, hcontinues, ?_⟩
  obtain ⟨f, hf, hc, hi, ho, hnull, hvalue, hqualifiers, hnone⟩ :
      ∃ f ∈ (Sample.planned .calendar).facts, f.Current ∧ f.identity = Sample.theTrip ∧
        (∀ g ∈ (Sample.planned .calendar).facts,
          g.status = .active → g.identity = Sample.theTrip → g.id = f.id) ∧
        (∀ entry ∈ f.value, entry.2 ≠ .null) ∧ (Json.obj f.value.rows).numbers = [] ∧
        (Json.obj (identityQualifiers f.qualifiers).rows).numbers = [] ∧
        f.temporalRange = none := by decide +kernel
  have hplain : f.Plain := ⟨Dict.noNull_iff.mpr hnull, Dict.wellFormed_of_numbers hvalue,
    Dict.wellFormed_of_numbers hqualifiers⟩
  have hrange : ∀ t ∈ (applyUpdate .calendar (Sample.planned .calendar, {})
      (Sample.tripUpdate 1 (Sample.entry "when" "next month"))).toOption, ∀ g ∈ t.1.facts,
        g.status = .active → g.temporalRange ≠ none ∧
          ∀ f ∈ (Sample.planned .calendar).facts, g.id ≠ f.id := by decide +kernel
  obtain ⟨t, ht, -, g, hg, -, -⟩ := applyUpdate_step (s := (Sample.planned .calendar, {}))
    (by decide +kernel) (.of_ids hf hc hi ho) hplain hcontinues
  obtain ⟨hperiod, hnew⟩ := hrange t (toOption_eq_some.mpr ht) g hg.mem hg.current.1
  exact ⟨f, t, g, .of_ids hf hc hi ho, hplain, ht, hg, hnew f hf, rfl, hnone ▸ hperiod⟩

end Haki
