import Haki.Consolidator.Effect

/-!
# One candidate, inverted

`applyCandidate_applied` says once what applying a candidate can do: count or
reinforce a duplicate, or add one row and have one of the six effects, under
the conditions collected in `Adjudicated` and `Effect.Guard`.  Every invariant
of the write path is derived from it; nothing below this module unfolds the
adjudicator again.
-/

namespace Haki

open Data Control

/-! ## Matching -/

section Matching

variable {env : Env} {db : Db} {c c' : Candidate} {embedding : Embedding} {event : Event}
  {existing : Option Fact} {f : Fact}

/-- What the matched fact of an adjudicated candidate is like. -/
structure Matched (db : Db) (event : Event) (c c' : Candidate) (existing : Option Fact) : Prop where
  /-- Adjudication may turn a candidate into a supersede, and changes nothing else. -/
  candidate : c' = c ∨ c' = { c with action := .supersede }
  /-- The matched fact is active and of the event's scope. -/
  active : ∀ old ∈ existing, old ∈ db.facts ∧ old.scope = event.scope ∧ old.status = .active
  /-- A scalar that a `create` is adjudicated against holds another value. -/
  differs : c'.action = .create → ∀ old ∈ existing, old.memoryForm ≠ .event →
    canonical old.value ≠ canonical c'.value

/-- A condition on the adjudicated candidate and its matched fact can be decided. -/
instance Match.decidableAgainst (m : Match) (P : Candidate → Fact → Prop)
    [∀ c f, Decidable (P c f)] : Decidable (∃ c' old, m = .against c' (some old) ∧ P c' old) :=
  match m with
  | .duplicate _ => isFalse (by rintro ⟨_, _, ⟨⟩, _⟩)
  | .against _ none => isFalse (by rintro ⟨_, _, ⟨⟩, _⟩)
  | .against c (some f) =>
    decidable_of_iff (P c f) ⟨fun h ↦ ⟨c, f, rfl, h⟩, by rintro ⟨_, _, ⟨⟩, h⟩; exact h⟩

/-- The same, where there may be no matched fact. -/
instance Match.decidableAdjudicated (m : Match) (P : Candidate → Option Fact → Prop)
    [∀ c existing, Decidable (P c existing)] :
    Decidable (∃ c' existing, m = .against c' existing ∧ P c' existing) :=
  match m with
  | .duplicate _ => isFalse (by rintro ⟨_, _, ⟨⟩, _⟩)
  | .against c existing =>
    decidable_of_iff (P c existing) ⟨fun h ↦ ⟨c, existing, rfl, h⟩, by rintro ⟨_, _, ⟨⟩, h⟩; exact h⟩

/-- What a duplicate is like. -/
structure Duplicates (db : Db) (event : Event) (c : Candidate) (f : Fact) : Prop where
  mem : f ∈ db.facts
  scope : f.scope = event.scope
  memoryForm : f.memoryForm ≠ .event
  value : canonical f.value = canonical c.value

theorem existing_active (db : Db) (event : Event) (c : Candidate) (embedding : Embedding)
    (h : f ∈ ((db.resolveExistingFact env event.scope c.targetPredicate c.qualifiers embedding).1.or
      (if c.action = .create then
        (db.resolveExistingFact env event.scope c.targetPredicate c.qualifiers
          embedding).2.findQualifierAmbiguousActiveFact event.scope c.targetPredicate c.qualifiers
            c.value
      else none))) :
    f ∈ db.facts ∧ f.scope = event.scope ∧ f.status = .active := by
  obtain ⟨aliases, ha⟩ :=
    db.resolveExistingFact_snd env event.scope c.targetPredicate c.qualifiers embedding
  rcases Option.or_eq_some_iff.mp h with h | ⟨-, h⟩
  · exact Db.resolveExistingFact_some h
  · split at h
    · obtain ⟨hm, hs, hact, -⟩ := Db.findQualifierAmbiguousActiveFact_some h
      rw [ha] at hm
      exact ⟨hm, hs, hact⟩
    · cases h

theorem matchTarget_snd (env : Env) (db : Db) (c : Candidate) (embedding : Embedding)
    (event : Event) :
    ∃ aliases, (matchTarget env db c embedding event).2 = { db with predicateAliases := aliases } := by
  obtain ⟨aliases, ha⟩ :=
    db.resolveExistingFact_snd env event.scope c.targetPredicate c.qualifiers embedding
  refine ⟨aliases, ?_⟩
  rw [matchTarget, ← ha]
  dsimp only
  split
  · split <;> rfl
  · rfl

theorem matchTarget_against (h : (matchTarget env db c embedding event).1 = .against c' existing) :
    Matched db event c c' existing ∧ c' = c := by
  rw [matchTarget] at h
  dsimp only at h
  split at h
  · next fact hx =>
    split at h
    · cases h
    · next hd =>
      obtain ⟨rfl, rfl⟩ := Match.against.inj h
      refine ⟨⟨.inl rfl, ?_, ?_⟩, rfl⟩
      · rintro old ⟨⟩
        exact existing_active db event c embedding hx
      · rintro hc old ⟨⟩ hform hv
        exact hd ⟨hc, hform, hv⟩
  · obtain ⟨rfl, rfl⟩ := Match.against.inj h
    exact ⟨⟨.inl rfl, by rintro _ ⟨⟩, by rintro _ _ ⟨⟩⟩, rfl⟩

theorem matchTarget_duplicate (h : (matchTarget env db c embedding event).1 = .duplicate f) :
    Duplicates db event c f ∧ f.status = .active ∧ c.action = .create := by
  rw [matchTarget] at h
  dsimp only at h
  split at h
  · next fact hx =>
    split at h
    · next hd =>
      obtain rfl := Match.duplicate.inj h
      obtain ⟨hm, hs, ha⟩ := existing_active db event c embedding hx
      exact ⟨⟨hm, hs, hd.2.1, hd.2.2⟩, ha, hd.1⟩
    · cases h
  · cases h

/-- Matching writes nothing but predicate aliases. -/
theorem matchCandidate_snd (env : Env) (db : Db) (c : Candidate) (embedding : Embedding)
    (event : Event) :
    ∃ aliases, (matchCandidate env db c embedding event).2 =
      { db with predicateAliases := aliases } := by
  rw [matchCandidate]
  split
  · exact matchTarget_snd env db c embedding event
  · next d _ =>
    split
    · exact ⟨_, rfl⟩
    · obtain ⟨aliases, ha⟩ :=
        db.resolveExistingFact_snd env event.scope c.targetPredicate c.qualifiers embedding
      split
      · next h => exact ⟨aliases, (congrArg Prod.snd h).symm.trans ha⟩
      · next db₁ h =>
        have hdb : db₁ = { db with predicateAliases := aliases } :=
          (congrArg Prod.snd h).symm.trans ha
        obtain ⟨aliases', ha'⟩ :=
          matchTarget_snd env db₁ { c with action := .supersede } embedding event
        exact ⟨aliases', by rw [ha', hdb]⟩

theorem matchCandidate_against
    (h : (matchCandidate env db c embedding event).1 = .against c' existing) :
    Matched db event c c' existing := by
  rw [matchCandidate] at h
  split at h
  · exact (matchTarget_against h).1
  · split at h
    · cases h
    · obtain ⟨aliases, ha⟩ :=
        db.resolveExistingFact_snd env event.scope c.targetPredicate c.qualifiers embedding
      split at h
      · cases h
      · next db₁ hr =>
        have hdb : db₁ = { db with predicateAliases := aliases } :=
          (congrArg Prod.snd hr).symm.trans ha
        obtain ⟨⟨-, hact, hd⟩, rfl⟩ := matchTarget_against h
        exact ⟨.inr rfl, fun old ho ↦ by simpa [hdb] using hact old ho, fun hc ↦ by cases hc⟩

theorem matchCandidate_duplicate (h : (matchCandidate env db c embedding event).1 = .duplicate f) :
    Duplicates db event c f := by
  rw [matchCandidate] at h
  split at h
  · exact (matchTarget_duplicate h).1
  · next d hd =>
    obtain ⟨hm, hs, -, -, hform, hv, -⟩ := Db.mem_duplicates.mp (Db.findDuplicate_some hd)
    split at h
    · obtain rfl := Match.duplicate.inj h
      exact ⟨hm, hs, hform, hv⟩
    · split at h
      · obtain rfl := Match.duplicate.inj h
        exact ⟨hm, hs, hform, hv⟩
      · -- A returning value is matched as a supersede, which never ends as a duplicate.
        exact absurd (matchTarget_duplicate h).2.2 (by simp)

end Matching

/-! ## Effects and their conditions -/

/-- A new scalar value that contradicts the matched fact. -/
structure Contradicts (event : Event) (c : Candidate) (existing : Option Fact)
    (memoryForm : MemoryForm) (old : Fact) : Prop where
  notHeld : ¬ HeldBack event existing
  matched : existing = some old
  create : c.action ≠ .supersede
  state : memoryForm ≠ .event
  differs : canonical old.value ≠ canonical c.value

/-- The open set of `old` is full. -/
structure FullSet (db : Db) (event : Event) (old : Fact) (conflict : ConflictSet) : Prop where
  openSet : db.openConflictSet event.scope old.id = some conflict
  full : conflictSetMaxMembers ≤ conflict.factIds.length

/-- The condition under which contradicting `old` has an effect. -/
def Effect.ContradictionGuard (db : Db) (event : Event) (old : Fact) : Effect → Prop
  | .openConflict old' => old' = old ∧ db.openConflictSet event.scope old.id = none
  | .joinConflict conflict =>
    db.openConflictSet event.scope old.id = some conflict ∧
      conflict.factIds.length < conflictSetMaxMembers
  | .overflow old' conflict other =>
    old' = old ∧ FullSet db event old conflict ∧
      ∃ otherId, conflict.factIds.find? (· ≠ old.id) = some otherId ∧ other = db.fact? otherId ∧
        ∀ o ∈ other, o.status ≠ .deleted
  | _ => False

/-- The condition under which an effect happens. -/
def Effect.Guard (db : Db) (event : Event) (c : Candidate) (existing : Option Fact)
    (memoryForm : MemoryForm) : Effect → Prop
  | .hold => HeldBack event existing
  | .accept =>
    ¬ HeldBack event existing ∧ ∀ old ∈ existing, c.action ≠ .supersede ∧
      (memoryForm = .event ∨ canonical old.value = canonical c.value)
  | .replace old => ¬ HeldBack event existing ∧ existing = some old ∧ c.action = .supersede
  | e => ∃ old, Contradicts event c existing memoryForm old ∧ e.ContradictionGuard db event old

theorem contradictionOf_guard {db : Db} {event : Event} {old : Fact} {e : Effect}
    (h : contradictionOf db event old = .ok e) : e.ContradictionGuard db event old := by
  rw [contradictionOf] at h
  split at h
  · next hc =>
    cases h
    exact ⟨rfl, hc⟩
  · next conflict hc =>
    split at h
    · next hfull =>
      split at h
      · cases h
      · next otherId hfind =>
        split at h
        · next hother =>
          cases h
          exact ⟨rfl, ⟨hc, hfull⟩, otherId, hfind, hother.symm, by rintro _ ⟨⟩⟩
        · next other hother =>
          split at h
          · cases h
          · next hd =>
            cases h
            exact ⟨rfl, ⟨hc, hfull⟩, otherId, hfind, hother.symm, by rintro _ ⟨⟩; exact hd⟩
    · next hroom =>
      cases h
      exact ⟨hc, not_le.mp hroom⟩

/-- Contradicting fails on a full set without a second member, or with a deleted one. -/
theorem contradictionOf_eq_error {db : Db} {event : Event} {old : Fact} {err : LedgerError}
    (h : contradictionOf db event old = .error err) :
    ∃ conflict, FullSet db event old conflict ∧
      ((conflict.factIds.find? (· ≠ old.id) = none ∧ err = .stopIteration) ∨
        ∃ otherId other, conflict.factIds.find? (· ≠ old.id) = some otherId ∧
          db.fact? otherId = some other ∧ other.status = .deleted ∧
          err = .illegalTransition .deleted .active) := by
  rw [contradictionOf] at h
  split at h
  · cases h
  · next conflict hc =>
    split at h
    · next hfull =>
      refine ⟨conflict, ⟨hc, hfull⟩, ?_⟩
      split at h
      · next hfind => exact .inl ⟨hfind, (Except.error.inj h).symm⟩
      · next otherId hfind =>
        split at h
        · cases h
        · next other hother =>
          split at h
          · next hd => exact .inr ⟨otherId, other, hfind, hother, hd, (Except.error.inj h).symm⟩
          · cases h
    · cases h

/-- A scalar value that contradicts the matched fact has the effect of contradicting it. -/
theorem Contradicts.effectOf {db : Db} {event : Event} {c : Candidate} {existing : Option Fact}
    {memoryForm : MemoryForm} {old : Fact} (h : Contradicts event c existing memoryForm old) :
    effectOf db c existing memoryForm event = contradictionOf db event old := by
  obtain ⟨hheld, rfl, hact, hform, hv⟩ := h
  rw [Haki.effectOf, if_neg hheld]
  simp only [if_neg hact, if_neg (not_or.mpr ⟨hform, hv⟩)]

/-- The four ways a candidate that is no duplicate goes. -/
theorem effectOf_cases (db : Db) (event : Event) (c : Candidate) (existing : Option Fact)
    (memoryForm : MemoryForm) :
    (HeldBack event existing ∧ effectOf db c existing memoryForm event = .ok .hold) ∨
    (¬ HeldBack event existing ∧ (∀ old ∈ existing, c.action ≠ .supersede ∧
        (memoryForm = .event ∨ canonical old.value = canonical c.value)) ∧
      effectOf db c existing memoryForm event = .ok .accept) ∨
    (∃ old, ¬ HeldBack event existing ∧ existing = some old ∧ c.action = .supersede ∧
      effectOf db c existing memoryForm event = .ok (.replace old)) ∨
    (∃ old, Contradicts event c existing memoryForm old) := by
  by_cases hheld : HeldBack event existing
  · exact .inl ⟨hheld, if_pos hheld⟩
  · refine .inr ?_
    cases existing with
    | none => exact .inl ⟨hheld, by rintro _ ⟨⟩, if_neg hheld⟩
    | some old =>
      rw [effectOf, if_neg hheld]
      by_cases hact : c.action = .supersede
      · exact .inr (.inl ⟨old, hheld, rfl, hact, if_pos hact⟩)
      · by_cases hform : memoryForm = .event ∨ canonical old.value = canonical c.value
        · refine .inl ⟨hheld, by rintro _ ⟨⟩; exact ⟨hact, hform⟩, ?_⟩
          simp only [if_neg hact, if_pos hform]
        · obtain ⟨hform, hv⟩ := not_or.mp hform
          exact .inr (.inr ⟨old, hheld, rfl, hact, hform, hv⟩)

theorem effectOf_guard {db : Db} {event : Event} {c : Candidate} {existing : Option Fact}
    {memoryForm : MemoryForm} {e : Effect} (h : effectOf db c existing memoryForm event = .ok e) :
    e.Guard db event c existing memoryForm := by
  rcases effectOf_cases db event c existing memoryForm with
    ⟨hheld, he⟩ | ⟨hheld, hx, he⟩ | ⟨old, hheld, hx, hact, he⟩ | ⟨old, hc⟩
  · obtain rfl := Except.ok.inj (he.symm.trans h)
    exact hheld
  · obtain rfl := Except.ok.inj (he.symm.trans h)
    exact ⟨hheld, hx⟩
  · obtain rfl := Except.ok.inj (he.symm.trans h)
    exact ⟨hheld, hx, hact⟩
  · rw [hc.effectOf] at h
    have hg := contradictionOf_guard h
    cases e with
    | hold | accept | replace => exact hg.elim
    | _ => exact ⟨old, hc, hg⟩

/-- A candidate that is written: its candidate row, and the effect it has. -/
structure Adjudicated (env : Env) (db : Db) (event : Event) (c c' : Candidate)
    (existing : Option Fact) (row : Fact) (e : Effect) : Prop
    extends Matched db event c c' existing where
  guard : e.Guard db event c' existing row.memoryForm
  id : row.id = db.freshFactId event.id
  status : row.status = .candidate
  scope : row.scope = event.scope
  predicate : row.predicate = c'.predicate
  value : row.value = storedValue c' existing event
  qualifiers : row.qualifiers = attributed c'.qualifiers event
  validFrom : row.validFrom = some event.occurredAt
  validTo : row.validTo = none
  recordedFrom : row.recordedFrom = env.now
  supersedesId : row.supersedesId = none
  sourceEventIds : row.sourceEventIds = [event.id]
  originTrust : row.originTrust = event.originTrust
  factKind : row.factKind = factKindOf c' existing
  memoryForm : row.memoryForm = memoryFormOf c' existing

theorem Adjudicated.fresh {env : Env} {db : Db} {event : Event} {c c' : Candidate}
    {existing : Option Fact} {row : Fact} {e : Effect}
    (h : Adjudicated env db event c c' existing row e) : db.facts.Fresh row :=
  fun f hf ↦ by rw [key_fact, key_fact, h.id]; exact db.freshFactId_ne event.id hf

theorem Adjudicated.notMem_set {env : Env} {db : Db} {event : Event} {c c' : Candidate}
    {existing : Option Fact} {row : Fact} {e : Effect}
    (h : Adjudicated env db event c c' existing row e) {s : ConflictSet}
    (hs : s ∈ db.conflictSets) : row.id ∉ s.factIds :=
  h.id ▸ db.freshFactId_notMem_set event.id hs

/-- The columns of the row that does not depend on the environment. -/
theorem candidateRow_eq_ok {env : Env} {db : Db} {c : Candidate} {existing : Option Fact}
    {embedding : Embedding} {event : Event} {row : Fact}
    (h : candidateRow env db c existing embedding event = .ok row) :
    ∃ temporalRange observedAt, row =
      { id := db.freshFactId event.id
        scope := event.scope
        predicate := c.predicate
        value := storedValue c existing event
        qualifiers := attributed c.qualifiers event
        status := .candidate
        validFrom := some event.occurredAt
        validTo := none
        recordedFrom := env.now
        recordedTo := none
        supersedesId := none
        sourceEventIds := [event.id]
        version := 1
        reinforcementCount := 0
        lastReinforcedAt := none
        factKind := factKindOf c existing
        volatility := volatilityOf c existing
        memoryForm := memoryFormOf c existing
        reclassifiedAt := none
        originTrust := event.originTrust
        temporalRange := temporalRange
        observedAt := observedAt
        evidenceSpan := c.evidenceSpan
        sourceChunkId := resolveSourceChunk env event c.evidenceSpan
        embedding := some embedding
        searchText := some (searchText c.predicate (storedValue c existing event)) } := by
  obtain ⟨classes, hclasses, h⟩ := bind_eq_ok.mp h
  obtain ⟨draft, hdraft, h⟩ := bind_eq_ok.mp h
  obtain ⟨temporalRange, -, hclasses⟩ := bind_eq_ok.mp hclasses
  obtain ⟨observedAt, -, hdraft⟩ := bind_eq_ok.mp hdraft
  cases hclasses
  cases hdraft
  cases h
  exact ⟨temporalRange, observedAt, rfl⟩

theorem candidateRow_memoryForm {env : Env} {db : Db} {c : Candidate} {existing : Option Fact}
    {embedding : Embedding} {event : Event} {row : Fact}
    (h : candidateRow env db c existing embedding event = .ok row) :
    row.memoryForm = memoryFormOf c existing := by
  obtain ⟨_, _, rfl⟩ := candidateRow_eq_ok h
  rfl

theorem candidateRow_status {env : Env} {db : Db} {c : Candidate} {existing : Option Fact}
    {embedding : Embedding} {event : Event} {row : Fact}
    (h : candidateRow env db c existing embedding event = .ok row) : row.status = .candidate := by
  obtain ⟨_, _, rfl⟩ := candidateRow_eq_ok h
  rfl

/-- Applying a candidate that is no duplicate, as one equation. -/
theorem applyCandidate_against {env : Env} {db : Db} {c c' : Candidate} {existing : Option Fact}
    {embedding : Embedding} {event : Event} (hu : db.UniqueActive)
    (hm : (matchCandidate env db c embedding event).1 = .against c' existing) :
    ∃ aliases, ∀ result, applyCandidate env db c embedding event result =
      candidateRow env db c' existing embedding event >>= fun row ↦
        effectOf db c' existing row.memoryForm event >>= fun e ↦
          flush { e.apply env event db row with predicateAliases := aliases } >>= fun db' ↦
            .ok (db', e.count result c') := by
  obtain ⟨aliases, ha⟩ := matchCandidate_snd env db c embedding event
  refine ⟨aliases, fun result ↦ ?_⟩
  have hmatch := matchCandidate_against hm
  have hu₁ : ({ db with predicateAliases := aliases } : Db).UniqueActive := hu
  have hpair : matchCandidate env db c embedding event =
      (.against c' existing, { db with predicateAliases := aliases }) := Prod.ext hm ha
  rw [applyCandidate, hpair]
  exact adjudicate_eq hu₁ fun old ho ↦ ⟨(hmatch.active old ho).1, (hmatch.active old ho).2.2⟩

/-- A candidate that is no duplicate and was applied: the row it added, and the effect it had. -/
theorem applyCandidate_written {env : Env} {db db' : Db} {c c' : Candidate} {existing : Option Fact}
    {embedding : Embedding} {event : Event} {result result' : JobResult} (hu : db.UniqueActive)
    (hm : (matchCandidate env db c embedding event).1 = .against c' existing)
    (h : applyCandidate env db c embedding event result = .ok (db', result')) :
    ∃ aliases row e, candidateRow env db c' existing embedding event = .ok row ∧
      effectOf db c' existing row.memoryForm event = .ok e ∧
      (e.apply env event db row).UniqueActive ∧
      db' = { e.apply env event db row with predicateAliases := aliases } ∧
      result' = e.count result c' := by
  obtain ⟨aliases, heq⟩ := applyCandidate_against hu hm
  rw [heq] at h
  obtain ⟨row, hrow, h⟩ := bind_eq_ok.mp h
  obtain ⟨e, he, h⟩ := bind_eq_ok.mp h
  obtain ⟨db₂, hflush, h⟩ := bind_eq_ok.mp h
  obtain ⟨rfl, hu'⟩ := flush_eq_ok.mp hflush
  cases h
  exact ⟨aliases, row, e, hrow, he, hu', rfl, rfl⟩

/-- Applying a duplicate, as one equation. -/
theorem applyCandidate_duplicate {env : Env} {db : Db} {c : Candidate} {f : Fact}
    {embedding : Embedding} {event : Event}
    (hm : (matchCandidate env db c embedding event).1 = .duplicate f) :
    ∃ aliases, ∀ result, applyCandidate env db c embedding event result =
      .ok (if f.status ≠ .active ∨ event.id ∈ f.sourceEventIds then
        ({ db with predicateAliases := aliases }, { result with duplicates := result.duplicates + 1 })
      else
        ({ db.updateFact f.id (·.reinforcedBy event) with predicateAliases := aliases },
          { result with reinforced := result.reinforced + 1 })) := by
  obtain ⟨aliases, ha⟩ := matchCandidate_snd env db c embedding event
  refine ⟨aliases, fun result ↦ ?_⟩
  have hpair : matchCandidate env db c embedding event =
      (.duplicate f, { db with predicateAliases := aliases }) := Prod.ext hm ha
  rw [applyCandidate, hpair]
  rfl

/-- The states a candidate can lead to.  A duplicate is counted or reinforced; any other candidate
adds one row and has one effect.  Predicate aliases may be learned either way. -/
inductive Applied (env : Env) (db : Db) (c : Candidate) (embedding : Embedding) (event : Event)
    (result : JobResult) : Db → JobResult → Prop where
  | counted (aliases : Table PredicateAlias) (f : Fact)
      (matched : (matchCandidate env db c embedding event).1 = .duplicate f)
      (duplicates : Duplicates db event c f)
      (stale : f.status ≠ .active ∨ event.id ∈ f.sourceEventIds) :
      Applied env db c embedding event result { db with predicateAliases := aliases }
        { result with duplicates := result.duplicates + 1 }
  | reinforced (aliases : Table PredicateAlias) (f : Fact)
      (matched : (matchCandidate env db c embedding event).1 = .duplicate f)
      (duplicates : Duplicates db event c f) (active : f.status = .active)
      (new : event.id ∉ f.sourceEventIds) :
      Applied env db c embedding event result
        { db.updateFact f.id (·.reinforcedBy event) with predicateAliases := aliases }
        { result with reinforced := result.reinforced + 1 }
  | written (aliases : Table PredicateAlias) (c' : Candidate) (existing : Option Fact) (row : Fact)
      (e : Effect) (matched : (matchCandidate env db c embedding event).1 = .against c' existing)
      (adjudicated : Adjudicated env db event c c' existing row e)
      (unique : (e.apply env event db row).UniqueActive) :
      Applied env db c embedding event result
        { e.apply env event db row with predicateAliases := aliases } (e.count result c')

/-- A candidate that is no duplicate, with the row and the effect computed for it. -/
theorem adjudicated_of_row {env : Env} {db : Db} {c c' : Candidate} {existing : Option Fact}
    {embedding : Embedding} {event : Event} {row : Fact} {e : Effect}
    (hm : (matchCandidate env db c embedding event).1 = .against c' existing)
    (hrow : candidateRow env db c' existing embedding event = .ok row)
    (he : effectOf db c' existing row.memoryForm event = .ok e) :
    Adjudicated env db event c c' existing row e := by
  obtain ⟨temporalRange, observedAt, rfl⟩ := candidateRow_eq_ok hrow
  exact
    { matchCandidate_against hm with
      guard := effectOf_guard he
      id := rfl
      status := rfl
      scope := rfl
      predicate := rfl
      value := rfl
      qualifiers := rfl
      validFrom := rfl
      validTo := rfl
      recordedFrom := rfl
      supersedesId := rfl
      sourceEventIds := rfl
      originTrust := rfl
      factKind := rfl
      memoryForm := rfl }

/-- **What applying a candidate does.** -/
theorem applyCandidate_applied {env : Env} {db db' : Db} {c : Candidate} {embedding : Embedding}
    {event : Event} {result result' : JobResult} (hu : db.UniqueActive)
    (h : applyCandidate env db c embedding event result = .ok (db', result')) :
    Applied env db c embedding event result db' result' := by
  cases hm : (matchCandidate env db c embedding event).1 with
  | duplicate f =>
    obtain ⟨aliases, heq⟩ := applyCandidate_duplicate hm
    rw [heq] at h
    split at h
    · next hstale =>
      cases h
      exact .counted aliases f hm (matchCandidate_duplicate hm) hstale
    · next hnew =>
      cases h
      obtain ⟨hactive, hnew⟩ := not_or.mp hnew
      exact .reinforced aliases f hm (matchCandidate_duplicate hm) (not_not.mp hactive) hnew
  | against c' existing =>
    obtain ⟨aliases, row, e, hrow, he, hu', rfl, rfl⟩ := applyCandidate_written hu hm h
    exact .written aliases c' existing row e hm (adjudicated_of_row hm hrow he) hu'

/-- A fact after a reinforcement. -/
theorem mem_reinforced {db : Db} {id : FactId} {event : Event} {f' : Fact} :
    f' ∈ (db.updateFact id (·.reinforcedBy event)).facts ↔
      ∃ f ∈ db.facts, (if f.id = id then f.reinforcedBy event else f) = f' :=
  Db.mem_updateFact (·.reinforcedBy_id event)

/-- A fact after an effect is a fact from before, rewritten, or the new row. -/
theorem Adjudicated.mem_apply {env : Env} {db : Db} {event : Event} {c c' : Candidate}
    {existing : Option Fact} {row f' : Fact} {e : Effect}
    (h : Adjudicated env db event c c' existing row e)
    (hf' : f' ∈ (e.apply env event db row).facts) :
    (∃ f ∈ db.facts, f' = e.onFact env event f ∧ f.id = f'.id ∧ f.content = f'.content) ∨
      (f' = e.onRow env row ∧ f'.id = row.id ∧ f'.content = row.content) := by
  rcases (Effect.mem_apply h.fresh).mp hf' with ⟨f, hf, rfl⟩ | rfl
  · exact .inl ⟨f, hf, rfl, (e.onFact_id env event f).symm, (e.onFact_content f).symm⟩
  · exact .inr ⟨rfl, e.onRow_id env row, e.onRow_content row⟩

/-- A conflict set after the effect, in terms of the sets before. -/
theorem Adjudicated.mem_onSets {env : Env} {db : Db} {event : Event} {c c' : Candidate}
    {existing : Option Fact} {row : Fact} {e : Effect} {s' : ConflictSet}
    (h : Adjudicated env db event c c' existing row e) (hs : s' ∈ e.onSets env event db row.id) :
    (s' ∈ db.conflictSets ∧ ∀ old s other, e = .overflow old s other → s' ≠ s) ∨
    (e = .hold ∧ s' = newConflictSet env db event [row.id] .quarantine) ∨
    (∃ old, e = .openConflict old ∧
      s' = newConflictSet env db event [old.id, row.id] .contradiction) ∨
    (∃ s ∈ db.conflictSets, e = .joinConflict s ∧ s' = s.extend row.id) ∨
    (∃ s ∈ db.conflictSets, ∃ old other, e = .overflow old s other ∧
      s' = s.dissolve row.id env.now) := by
  rcases Effect.mem_onSets hs with ⟨hs, -, hne⟩ | hs | hs | ⟨s₀, rfl, s, hm, hid, rfl⟩ |
    ⟨old, s₀, other, rfl, s, hm, hid, rfl⟩
  · exact .inl ⟨hs, fun old s other he hss ↦ hne old s other he (congrArg ConflictSet.id hss)⟩
  · exact .inr (.inl hs)
  · exact .inr (.inr (.inl hs))
  · obtain ⟨old, -, hopen, -⟩ := h.guard
    obtain rfl : s = s₀ := Table.eq_of_key_eq hm (Db.openConflictSet_some hopen).1 hid
    exact .inr (.inr (.inr (.inl ⟨s, hm, rfl, rfl⟩)))
  · obtain ⟨_, -, -, hfull, -⟩ := h.guard
    obtain rfl : s = s₀ := Table.eq_of_key_eq hm (Db.openConflictSet_some hfull.openSet).1 hid
    exact .inr (.inr (.inr (.inr ⟨s, hm, old, other, rfl, rfl⟩)))

/-- What the write path never rewrites: a fact without its lifecycle and reinforcement columns. -/
def Fact.birth (f : Fact) : Fact :=
  { f.content with reinforcementCount := 0, lastReinforcedAt := none, sourceEventIds := [] }

theorem Fact.birth_of_content {f g : Fact} (h : f.content = g.content) : f.birth = g.birth := by
  rw [Fact.birth, Fact.birth, h]

/-- A column of `birth` is the column of the fact. -/
theorem Fact.id_of_birth {f g : Fact} (h : f.birth = g.birth) : f.id = g.id :=
  (congrArg Fact.id h : f.birth.id = g.birth.id)

theorem Fact.factKind_of_birth {f g : Fact} (h : f.birth = g.birth) : f.factKind = g.factKind :=
  (congrArg Fact.factKind h : f.birth.factKind = g.birth.factKind)

/-- Every fact stays, with what it was born with. -/
theorem applyCandidate_persists {env : Env} {db db' : Db} {c : Candidate} {embedding : Embedding}
    {event : Event} {result result' : JobResult} (hu : db.UniqueActive)
    (h : applyCandidate env db c embedding event result = .ok (db', result')) {f : Fact}
    (hf : f ∈ db.facts) : ∃ f' ∈ db'.facts, f'.birth = f.birth := by
  cases applyCandidate_applied hu h with
  | counted => exact ⟨f, hf, rfl⟩
  | reinforced => exact ⟨_, mem_reinforced.mpr ⟨f, hf, rfl⟩, by split <;> rfl⟩
  | written aliases c' existing row e _ hadj =>
    exact ⟨_, (Effect.mem_apply hadj.fresh).mpr (.inl ⟨f, hf, rfl⟩),
      Fact.birth_of_content (e.onFact_content f)⟩

/-- Every fact after a candidate was there before, or is the candidate's row. -/
theorem applyCandidate_born {env : Env} {db db' : Db} {c : Candidate} {embedding : Embedding}
    {event : Event} {result result' : JobResult} (hu : db.UniqueActive)
    (h : applyCandidate env db c embedding event result = .ok (db', result')) {f' : Fact}
    (hf' : f' ∈ db'.facts) :
    (∃ f ∈ db.facts, f'.birth = f.birth) ∨
      ∃ c' existing row e, (matchCandidate env db c embedding event).1 = .against c' existing ∧
        Adjudicated env db event c c' existing row e ∧ f' = e.onRow env row := by
  cases applyCandidate_applied hu h with
  | counted => exact .inl ⟨f', hf', rfl⟩
  | reinforced =>
    obtain ⟨f, hf, rfl⟩ := mem_reinforced.mp hf'
    exact .inl ⟨f, hf, by split <;> rfl⟩
  | written aliases c' existing row e hm hadj =>
    rcases (Effect.mem_apply hadj.fresh).mp hf' with ⟨f, hf, rfl⟩ | rfl
    · exact .inl ⟨f, hf, Fact.birth_of_content (e.onFact_content f)⟩
    · exact .inr ⟨c', existing, row, e, hm, hadj, rfl⟩

/-- The dates of the row can be computed. -/
def DatesParse (env : Env) (c : Candidate) (existing : Option Fact) (event : Event) : Prop :=
  ∃ range observedAt, temporalRangeOf env c existing event = .ok range ∧
    env.observedAtOf (storedValue c existing event) range = some observedAt

instance (env : Env) (c : Candidate) (existing : Option Fact) (event : Event) :
    Decidable (DatesParse env c existing event) :=
  match h : temporalRangeOf env c existing event with
  | .error _ => isFalse (by rintro ⟨_, _, h', -⟩; cases h.symm.trans h')
  | .ok range =>
    decidable_of_iff ((env.observedAtOf (storedValue c existing event) range).isSome)
      ⟨fun hs ↦ ⟨range, _, h, (Option.some_get hs).symm⟩, by
        rintro ⟨_, _, h', ho⟩
        obtain rfl := Except.ok.inj (h.symm.trans h')
        rw [ho]
        rfl⟩

/-- Only a date can keep the row from being computed. -/
theorem candidateRow_cases (env : Env) (db : Db) (c : Candidate) (existing : Option Fact)
    (embedding : Embedding) (event : Event) :
    (DatesParse env c existing event ∧
      ∃ row, candidateRow env db c existing embedding event = .ok row) ∨
    (¬ DatesParse env c existing event ∧
      candidateRow env db c existing embedding event = .error .dateError) := by
  have range_error {e : LedgerError} (h : temporalRangeOf env c existing event = .error e) :
      e = .dateError := by
    rw [temporalRangeOf] at h
    split at h
    · cases h
    · rcases bind_eq_error.mp h with h | ⟨dates, -, h⟩
      · exact (orRaise_eq_error.mp h).2
      · split at h
        · exact (orRaise_eq_error.mp h).2
        · cases h
  rw [candidateRow, classesOf, bind_assoc]
  cases hr : temporalRangeOf env c existing event with
  | error e =>
    refine .inr ⟨?_, by rw [range_error hr]; rfl⟩
    rintro ⟨range, -, hr', -⟩
    cases hr.symm.trans hr'
  | ok range =>
    simp only [ok_bind, pure_bind, draftOf, bind_assoc]
    cases ho : env.observedAtOf (storedValue c existing event) range with
    | none =>
      refine .inr ⟨?_, rfl⟩
      rintro ⟨range', observedAt, hr', ho'⟩
      obtain rfl := Except.ok.inj (hr.symm.trans hr')
      cases ho.symm.trans ho'
    | some observedAt => exact .inl ⟨⟨range, observedAt, hr, ho⟩, _, rfl⟩

theorem datesParse_of_row {env : Env} {db : Db} {c : Candidate} {existing : Option Fact}
    {embedding : Embedding} {event : Event} {row : Fact}
    (h : candidateRow env db c existing embedding event = .ok row) :
    DatesParse env c existing event := by
  rcases candidateRow_cases env db c existing embedding event with ⟨hd, -⟩ | ⟨-, herror⟩
  · exact hd
  · cases h.symm.trans herror

/-- A candidate that fails with an illegal transition contradicts a fact, and it is the contradiction
that fails. -/
theorem applyCandidate_illegal {env : Env} {db : Db} {c : Candidate} {embedding : Embedding}
    {event : Event} {result : JobResult} {source target : FactStatus} (hu : db.UniqueActive)
    (h : applyCandidate env db c embedding event result =
      .error (.illegalTransition source target)) :
    ∃ c' existing row old, (matchCandidate env db c embedding event).1 = .against c' existing ∧
      candidateRow env db c' existing embedding event = .ok row ∧
      Contradicts event c' existing row.memoryForm old ∧
      contradictionOf db event old = .error (.illegalTransition source target) := by
  cases hm : (matchCandidate env db c embedding event).1 with
  | duplicate d =>
    obtain ⟨aliases, heq⟩ := applyCandidate_duplicate hm
    rw [heq] at h
    cases h
  | against c' existing =>
    obtain ⟨aliases, heq⟩ := applyCandidate_against hu hm
    rw [heq] at h
    rcases bind_eq_error.mp h with hrow | ⟨row, hrow, h⟩
    · rcases candidateRow_cases env db c' existing embedding event with ⟨-, _, hok⟩ | ⟨-, herror⟩
      · cases hok.symm.trans hrow
      · cases herror.symm.trans hrow
    · rcases bind_eq_error.mp h with heffect | ⟨e, -, h⟩
      · rcases effectOf_cases db event c' existing row.memoryForm with
          ⟨-, hok⟩ | ⟨-, -, hok⟩ | ⟨_, -, -, -, hok⟩ | ⟨old, hcontra⟩
        · cases hok.symm.trans heffect
        · cases hok.symm.trans heffect
        · cases hok.symm.trans heffect
        · exact ⟨c', existing, row, old, rfl, hrow, hcontra, hcontra.effectOf.symm.trans heffect⟩
      · rcases bind_eq_error.mp h with hflush | ⟨db', -, h⟩
        · rw [flush] at hflush
          split at hflush <;> cases hflush
        · cases h

/-! ## Events and jobs as runs of candidates -/

section Runs

variable {env : Env} {extract : Extractor}

/-- An admitted candidate is dropped as an echo, which writes nothing, or applied. -/
theorem applyAdmitted_cases {event : Event} {state state' : Db × JobResult} {c : Candidate}
    (h : applyAdmitted env event state c = .ok state') :
    (∃ reason, antiEchoReason env event state.1 c = some reason ∧
      state' = (state.1, recordRejection state.2 reason)) ∨
    (antiEchoReason env event state.1 c = none ∧
      applyCandidate env state.1 c (candidateEmbedding env c) event state.2 = .ok state') := by
  rw [applyAdmitted] at h
  split at h
  · next reason hr => exact .inl ⟨reason, hr, (Except.ok.inj h).symm⟩
  · next hr => exact .inr ⟨hr, h⟩

/-- The condition `C` holds of every candidate applied while `event` is processed. -/
def EventMeets (env : Env) (extract : Extractor) (C : Event → Db → Candidate → Prop)
    (state : Db × JobResult) (event : Event) : Prop :=
  ∀ raws, extract event (existingViews env state.1 event) = some raws →
    FoldMeets (applyAdmitted env event)
      (fun s c ↦ antiEchoReason env event s.1 c = none → C event s.1 c)
      (state.1, raws.foldl (countGate env event) state.2) (admitted env event raws)

/-- The condition `C` holds of every candidate applied by a job. -/
def JobMeets (env : Env) (extract : Extractor) (C : Event → Db → Candidate → Prop) (db : Db)
    (eventIds : List EventId) (only : Option (List EventId)) : Prop :=
  let events := jobEvents db eventIds only
  FoldMeets (processEvent env extract) (EventMeets env extract C)
    (events.foldl (embedEvent env) db, {}) events

instance (C : Event → Db → Candidate → Prop) [∀ event db c, Decidable (C event db c)]
    (state : Db × JobResult) (event : Event) : Decidable (EventMeets env extract C state event) :=
  match h : extract event (existingViews env state.1 event) with
  | none => isTrue fun _ h' ↦ by cases h.symm.trans h'
  | some raws =>
    decidable_of_iff (FoldMeets (applyAdmitted env event)
        (fun s c ↦ antiEchoReason env event s.1 c = none → C event s.1 c)
        (state.1, raws.foldl (countGate env event) state.2) (admitted env event raws))
      ⟨fun hm _ h' ↦ Option.some.inj (h.symm.trans h') ▸ hm, fun hm ↦ hm raws h⟩

instance (C : Event → Db → Candidate → Prop) [∀ event db c, Decidable (C event db c)] (db : Db)
    (eventIds : List EventId) (only : Option (List EventId)) :
    Decidable (JobMeets env extract C db eventIds only) :=
  inferInstanceAs (Decidable (FoldMeets _ _ _ _))

/-- What follows from conditions a job meets is met. -/
theorem jobMeets_of_forall_meets {ι : Type} {C : ι → Event → Db → Candidate → Prop}
    {D : Event → Db → Candidate → Prop} (hCD : ∀ event db c, (∀ i, C i event db c) → D event db c)
    {db : Db} {eventIds : List EventId} {only : Option (List EventId)}
    (h : ∀ i, JobMeets env extract (C i) db eventIds only) :
    JobMeets env extract D db eventIds only := by
  unfold JobMeets at h ⊢
  refine foldMeets_of_forall_meets (fun state event h raws hraws ↦ ?_) h
  refine foldMeets_of_forall_meets (C := fun i s c ↦
    antiEchoReason env event s.1 c = none → C i event s.1 c) (fun s c h hn ↦ ?_) ?_
  · exact hCD event s.1 c fun i ↦ h i hn
  · exact fun i ↦ h i raws hraws

theorem embedEvent_eq (env : Env) (db : Db) (event : Event) :
    ∃ events, embedEvent env db event = { db with events := events } := by
  rw [embedEvent]
  split <;> exact ⟨_, rfl⟩

theorem indexTouchedFacts_eq (env : Env) (db : Db) (event : Event) :
    ∃ events, indexTouchedFacts env db event = { db with events := events } := by
  rw [indexTouchedFacts]
  dsimp only
  split <;> exact ⟨_, rfl⟩

/-- The up-front pass only touches the events. -/
theorem foldl_embedEvent_eq (env : Env) (db : Db) (l : List Event) :
    ∃ events, l.foldl (embedEvent env) db = { db with events := events } := by
  induction l generalizing db with
  | nil => exact ⟨db.events, rfl⟩
  | cons e l ih =>
    obtain ⟨events, he⟩ := embedEvent_eq env db e
    obtain ⟨events', h⟩ := ih (embedEvent env db e)
    exact ⟨events', by rw [List.foldl_cons, h, he]⟩

/-- Processing an event is a run over its admitted candidates, up to the columns of events. -/
theorem processEvent_eq_ok {event : Event} {state state' : Db × JobResult}
    (h : processEvent env extract state event = .ok state') :
    ∃ raws s events, extract event (existingViews env state.1 event) = some raws ∧
      (admitted env event raws).foldlM (applyAdmitted env event)
        (state.1, raws.foldl (countGate env event) state.2) = .ok s ∧
      state' = ({ s.1 with events := events }, s.2) := by
  obtain ⟨raws, hraws, h⟩ := bind_eq_ok.mp h
  have hraws := orRaise_eq_ok.mp hraws
  dsimp only at h
  split at h
  · next hempty =>
    cases h
    exact ⟨raws, _, state.1.events, hraws, by rw [List.isEmpty_iff.mp hempty]; rfl, rfl⟩
  · obtain ⟨s, hs, h⟩ := bind_eq_ok.mp h
    cases h
    obtain ⟨events, he⟩ := indexTouchedFacts_eq env s.1 event
    exact ⟨raws, s, events, hraws, hs, by rw [he]⟩

/-- A run over the admitted candidates of an event processes it. -/
theorem processEvent_of_run {event : Event} {state s : Db × JobResult} {raws : List RawCandidate}
    (hraws : extract event (existingViews env state.1 event) = some raws)
    (hs : (admitted env event raws).foldlM (applyAdmitted env event)
      (state.1, raws.foldl (countGate env event) state.2) = .ok s) :
    ∃ events, processEvent env extract state event = .ok ({ s.1 with events := events }, s.2) := by
  rw [processEvent, hraws, orRaise, ok_bind]
  dsimp only
  split
  · next hempty =>
    rw [List.isEmpty_iff.mp hempty] at hs
    obtain rfl := foldlM_nil_eq_ok.mp hs
    exact ⟨state.1.events, rfl⟩
  · obtain ⟨events, he⟩ := indexTouchedFacts_eq env s.1 event
    refine ⟨events, ?_⟩
    rw [hs, ok_bind, ← he]
    rfl

variable {I : Db → Prop} {C : Event → Db → Candidate → Prop}

/-- **Event rule.**  What one applied candidate preserves, processing an event preserves. -/
theorem processEvent_invariant {event : Event} {state state' : Db × JobResult}
    (hevents : ∀ db events, I db → I { db with events := events })
    (hstep : ∀ db c result db' result', I db → C event db c →
      applyCandidate env db c (candidateEmbedding env c) event result = .ok (db', result') → I db')
    (hI : I state.1) (hC : EventMeets env extract C state event)
    (h : processEvent env extract state event = .ok state') : I state'.1 := by
  obtain ⟨raws, s, events, hraws, hs, rfl⟩ := processEvent_eq_ok h
  refine hevents _ _ ?_
  refine foldlM_invariant (I := fun s : Db × JobResult ↦ I s.1) (fun s c s' hI hC hs ↦ ?_) ?_
    (hC raws hraws) hs
  · rcases applyAdmitted_cases hs with ⟨reason, -, rfl⟩ | ⟨hn, hs⟩
    · exact hI
    · exact hstep s.1 c s.2 s'.1 s'.2 hI (hC hn) hs
  · exact hI

/-- **Job rule.**  What one applied candidate preserves, a job preserves. -/
theorem processJob_invariant {db : Db} {eventIds : List EventId} {only : Option (List EventId)}
    {state' : Db × JobResult}
    (hevents : ∀ db events, I db → I { db with events := events })
    (hstep : ∀ event db c result db' result', I db → C event db c →
      applyCandidate env db c (candidateEmbedding env c) event result = .ok (db', result') → I db')
    (hI : I db) (hC : JobMeets env extract C db eventIds only)
    (h : processJob env extract db eventIds only = .ok state') : I state'.1 := by
  refine foldlM_invariant (I := fun s : Db × JobResult ↦ I s.1)
    (fun s event s' hI hC ↦ processEvent_invariant hevents (hstep event) hI hC) ?_ hC h
  obtain ⟨events, he⟩ := foldl_embedEvent_eq env db (jobEvents db eventIds only)
  simp only [he]
  exact hevents db events hI

end Runs

end Haki
