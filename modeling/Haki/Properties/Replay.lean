import Haki.Consolidator.Learned
import Haki.Consolidator.Settled
import Haki.Frame
import Haki.Sample
import Mathlib.Algebra.GroupWithZero.Nat

/-!
# Processing the same job twice

The duplicate check looks for the candidate's value among the facts of its
identity.  What it finds the second time depends on what became of the fact in
between.  A candidate is `Quiet` when, going by the ledger it meets the first
time, it settles what it says and unsettles nothing that the job said before;
`processJob_replay` says that a job of quiet candidates is without effect the
second time.
-/

namespace Haki

open Data Control

variable {env : Env} {db : Db} {event : Event} {c : Candidate} {embedding : Embedding} {f : Fact}

/-! ## What a second pass recognizes -/

/-- A fact with the candidate's value is found that is active and lists the event already, or that
is not active while nothing active is there to compare with. -/
def Recognized (env : Env) (event : Event) (db : Db) (c : Candidate) : Prop :=
  let resolved := (db.resolveExistingFact env event.scope c.targetPredicate c.qualifiers
    (candidateEmbedding env c)).1
  match db.findDuplicate event.scope c.predicate c.value c.qualifiers with
  | some f => if f.status = .active then event.id ∈ f.sourceEventIds else resolved = none
  | none => c.action = .create ∧ ∃ f ∈ resolved, f.memoryForm ≠ .event ∧
      canonical f.value = canonical c.value ∧ event.id ∈ f.sourceEventIds

/-- The same-value short-circuit of the target lookup. -/
theorem matchTarget_eq_duplicate_iff :
    (matchTarget env db c embedding event).1 = .duplicate f ↔
      c.action = .create ∧
        (db.resolveExistingFact env event.scope c.targetPredicate c.qualifiers embedding).1 =
          some f ∧ f.memoryForm ≠ .event ∧ canonical f.value = canonical c.value := by
  rw [matchTarget]
  dsimp only
  cases hr : (db.resolveExistingFact env event.scope c.targetPredicate c.qualifiers embedding).1 with
  | some g =>
    simp only [Option.some_or]
    split
    · next h =>
      simp only [Match.duplicate.injEq, Option.some.injEq]
      exact ⟨by rintro rfl; exact ⟨h.1, rfl, h.2⟩, fun h ↦ h.2.1⟩
    · next h =>
      refine iff_of_false (by simp) ?_
      rintro ⟨hc, hg, hform⟩
      obtain rfl := Option.some.inj hg
      exact h ⟨hc, hform⟩
  | none =>
    -- An ambiguous fact has another value.
    refine iff_of_false ?_ (by simp)
    simp only [Option.none_or]
    split
    · next g hg =>
      split
      · next h =>
        rw [if_pos h.1] at hg
        exact absurd h.2.2 (Db.findQualifierAmbiguousActiveFact_some hg).2.2.2
      · simp
    · simp

/-- A candidate is recognized when it is matched with a duplicate it does not reinforce. -/
theorem recognized_iff :
    Recognized env event db c ↔
      ∃ f, (matchCandidate env db c (candidateEmbedding env c) event).1 = .duplicate f ∧
        (f.status ≠ .active ∨ event.id ∈ f.sourceEventIds) := by
  rw [Recognized, matchCandidate]
  cases hd : db.findDuplicate event.scope c.predicate c.value c.qualifiers with
  | none =>
    simp only [matchTarget_eq_duplicate_iff]
    constructor
    · rintro ⟨hc, f, hf, hform, hv, hlisted⟩
      exact ⟨f, ⟨hc, hf, hform, hv⟩, .inr hlisted⟩
    · rintro ⟨f, ⟨hc, hf, hform, hv⟩, hlisted⟩
      have hactive := (Db.resolveExistingFact_some hf).2.2
      exact ⟨hc, f, hf, hform, hv, hlisted.resolve_left (not_not.mpr hactive)⟩
  | some d =>
    dsimp only
    by_cases ha : d.status = .active
    · rw [if_pos ha, if_pos ha]
      constructor
      · exact fun h ↦ ⟨d, rfl, .inr h⟩
      · rintro ⟨f, hf, h⟩
        obtain rfl := Match.duplicate.inj hf
        exact h.resolve_left (not_not.mpr ha)
    · rw [if_neg ha, if_neg ha]
      split
      · next h =>
        rw [h]
        exact iff_of_true rfl ⟨d, rfl, .inl ha⟩
      · next g db₁ h =>
        rw [h]
        refine iff_of_false (by simp) ?_
        rintro ⟨f, hf, -⟩
        cases (matchTarget_eq_duplicate_iff.mp hf).1

/-! ## The counters of a pass -/

/-- The candidates that left no trace. -/
def JobResult.dismissed (result : JobResult) : Nat := result.duplicates + result.rejected

theorem dismissed_recordRejection (result : JobResult) (reason : RejectReason) :
    (recordRejection result reason).dismissed = result.dismissed + 1 :=
  rfl

theorem Effect.dismissed_count (e : Effect) (result : JobResult) (c : Candidate) :
    (e.count result c).dismissed = result.dismissed := by
  cases e with
  | accept => rw [Effect.count]; split <;> rfl
  | _ => rfl

/-- The write gate counts every raw candidate that it does not admit. -/
theorem dismissed_countGate (env : Env) (event : Event) (raws : List RawCandidate)
    (result : JobResult) :
    (raws.foldl (countGate env event) result).dismissed + (admitted env event raws).length =
      result.dismissed + raws.length := by
  induction raws generalizing result with
  | nil => rfl
  | cons raw raws ih =>
    rw [List.foldl_cons]
    have ih := ih (countGate env event result raw)
    cases raw with
    | invalid =>
      have hcount : (countGate env event result .invalid).dismissed = result.dismissed + 1 := rfl
      rw [hcount] at ih
      simp only [admitted, List.filterMap_cons, List.length_cons] at ih ⊢
      omega
    | reject reason =>
      have hcount := dismissed_recordRejection result reason
      rw [countGate, hcount] at ih
      simp only [admitted, List.filterMap_cons, List.length_cons] at ih ⊢
      rw [countGate]
      omega
    | valid c =>
      simp only [admitted, List.filterMap_cons, List.length_cons, countGate] at ih ⊢
      cases hgate : gateReason env event c with
      | none =>
        simp only [hgate, Option.isNone_none, if_true, List.length_cons] at ih ⊢
        omega
      | some reason =>
        simp only [hgate, Option.isNone_some, dismissed_recordRejection] at ih ⊢
        simp only [Bool.false_eq_true, if_false] at ih ⊢
        omega

/-- An admitted candidate is dismissed at most once, and then it is an echo or recognized. -/
theorem dismissed_applyAdmitted {state state' : Db × JobResult} (hu : state.1.UniqueActive)
    (h : applyAdmitted env event state c = .ok state') :
    state'.2.dismissed ≤ state.2.dismissed + 1 ∧
      (state'.2.dismissed = state.2.dismissed + 1 →
        antiEchoReason env event state.1 c = none → Recognized env event state.1 c) := by
  rcases applyAdmitted_cases h with ⟨reason, hr, rfl⟩ | ⟨-, h⟩
  · exact ⟨le_rfl, fun _ hn ↦ by cases hn.symm.trans hr⟩
  · obtain ⟨db', result'⟩ := state'
    cases applyCandidate_applied hu h with
    | counted aliases f hm _ hstale =>
      refine ⟨?_, fun _ _ ↦ recognized_iff.mpr ⟨f, hm, hstale⟩⟩
      simp only [JobResult.dismissed]
      omega
    | reinforced => exact ⟨Nat.le_succ _, fun h ↦ absurd h (Nat.succ_ne_self _).symm⟩
    | written _ c' _ _ e =>
      dsimp only
      rw [e.dismissed_count]
      exact ⟨Nat.le_succ _, fun h ↦ absurd h (Nat.succ_ne_self _).symm⟩

/-- A recognized candidate and an echo are dismissed, and touch neither facts nor sets. -/
theorem applyAdmitted_recognized (event : Event) (state : Db × JobResult)
    (hC : antiEchoReason env event state.1 c = none → Recognized env event state.1 c) :
    ∃ state', applyAdmitted env event state c = .ok state' ∧ state'.1.facts = state.1.facts ∧
      state'.1.conflictSets = state.1.conflictSets ∧
      state'.2.dismissed = state.2.dismissed + 1 := by
  rw [applyAdmitted]
  split
  · exact ⟨_, rfl, rfl, rfl, rfl⟩
  · next hn =>
    obtain ⟨f, hm, hstale⟩ := recognized_iff.mp (hC hn)
    obtain ⟨aliases, heq⟩ := applyCandidate_duplicate hm
    refine ⟨_, (heq state.2).trans (congrArg Except.ok (if_pos hstale)), rfl, rfl, ?_⟩
    simp only [JobResult.dismissed]
    omega

/-! ## Events and jobs -/

/-- A provider whose answer to an event is fixed. -/
def fixedAnswers (answers : EventId → List RawCandidate) : Extractor :=
  fun event _ ↦ some (answers event.id)

section

variable {answers : EventId → List RawCandidate} {state state' : Db × JobResult}

/-- An event dismisses at most all its raw candidates, and then all that are applied are
recognized. -/
theorem dismissed_processEvent (hu : state.1.UniqueActive)
    (h : processEvent env (fixedAnswers answers) state event = .ok state') :
    state'.2.dismissed ≤ state.2.dismissed + (answers event.id).length ∧
      (state'.2.dismissed = state.2.dismissed + (answers event.id).length →
        EventMeets env (fixedAnswers answers) (Recognized env) state event) := by
  obtain ⟨raws, s, events, hraws, hs, rfl⟩ := processEvent_eq_ok h
  obtain rfl := Option.some.inj hraws
  have hgate := dismissed_countGate env event (answers event.id) state.2
  have hsum : ((admitted env event (answers event.id)).map fun _ ↦ 1).sum =
      (admitted env event (answers event.id)).length := by simp
  have hle := foldlM_count_le (I := fun s : Db × JobResult ↦ s.1.UniqueActive)
    (N := fun s ↦ s.2.dismissed) (fun _ _ _ ↦ applyAdmitted_unique)
    (fun _ _ _ hu h ↦ (dismissed_applyAdmitted hu h).1)
    (s := (state.1, (answers event.id).foldl (countGate env event) state.2)) hu hs
  dsimp only at hle ⊢
  refine ⟨by omega, fun hN raws hraws ↦ ?_⟩
  obtain rfl := Option.some.inj hraws
  refine foldMeets_of_count (I := fun s : Db × JobResult ↦ s.1.UniqueActive)
    (N := fun s ↦ s.2.dismissed) (fun _ _ _ ↦ applyAdmitted_unique)
    (fun _ _ _ hu h ↦ (dismissed_applyAdmitted hu h).1)
    (fun _ _ _ hu h ↦ (dismissed_applyAdmitted hu h).2) hu hs ?_
  dsimp only
  omega

/-- An event all of whose applied candidates are recognized dismisses all its raw candidates, and
touches neither facts nor sets. -/
theorem processEvent_recognized
    (hC : EventMeets env (fixedAnswers answers) (Recognized env) state event) :
    ∃ state', processEvent env (fixedAnswers answers) state event = .ok state' ∧
      state'.1.facts = state.1.facts ∧ state'.1.conflictSets = state.1.conflictSets ∧
      state'.2.dismissed = state.2.dismissed + (answers event.id).length := by
  have hgate := dismissed_countGate env event (answers event.id) state.2
  have hsum : ((admitted env event (answers event.id)).map fun _ ↦ 1).sum =
      (admitted env event (answers event.id)).length := by simp
  obtain ⟨s, hs, hfacts, hsets, hcount⟩ := foldlM_total (f := applyAdmitted env event) (fun _ ↦ 1)
    (I := fun n (s : Db × JobResult) ↦ s.1.facts = state.1.facts ∧
      s.1.conflictSets = state.1.conflictSets ∧ s.2.dismissed = n)
    (fun n s c hI hC ↦ by
      obtain ⟨s', hs', hfacts, hsets, hcount⟩ := applyAdmitted_recognized event s hC
      exact ⟨s', hs', hfacts.trans hI.1, hsets.trans hI.2.1, by rw [hcount, hI.2.2]⟩)
    (s := (state.1, (answers event.id).foldl (countGate env event) state.2)) ⟨rfl, rfl, rfl⟩
    (hC _ rfl)
  have hraws : fixedAnswers answers event (existingViews env state.1 event) =
      some (answers event.id) := rfl
  obtain ⟨events, hok⟩ := processEvent_of_run hraws hs
  refine ⟨_, hok, hfacts, hsets, ?_⟩
  dsimp only at hcount ⊢
  omega

/-- The raw candidates of a job. -/
def rawCount (answers : EventId → List RawCandidate) (db : Db) (eventIds : List EventId)
    (only : Option (List EventId)) : Nat :=
  ((jobEvents db eventIds only).map fun event ↦ (answers event.id).length).sum

/-- The job creates no fact, opens no conflict set, changes neither the status nor the value of a
fact, and counts every candidate as a duplicate or as rejected. -/
def WithoutEffect (env : Env) (answers : EventId → List RawCandidate) (db : Db)
    (eventIds : List EventId) (only : Option (List EventId)) : Prop :=
  ∃ state', processJob env (fixedAnswers answers) db eventIds only = .ok state' ∧
    (state'.1.facts.rows.map fun f ↦ (f.id, f.status, f.value)) =
      (db.facts.rows.map fun f ↦ (f.id, f.status, f.value)) ∧
    state'.1.conflictSets.rows.map ConflictSet.id = db.conflictSets.rows.map ConflictSet.id ∧
    state'.2.dismissed = rawCount answers db eventIds only

/-- A job is without effect exactly when every candidate it applies is recognized. -/
theorem processJob_withoutEffect_iff (hu : db.UniqueActive) {eventIds : List EventId}
    {only : Option (List EventId)} :
    WithoutEffect env answers db eventIds only ↔
      JobMeets env (fixedAnswers answers) (Recognized env) db eventIds only := by
  obtain ⟨events, hembed⟩ := foldl_embedEvent_eq env db (jobEvents db eventIds only)
  have hu' : ((jobEvents db eventIds only).foldl (embedEvent env) db).UniqueActive := hembed ▸ hu
  constructor
  · rintro ⟨state', h, -, -, hcount⟩
    refine foldMeets_of_count (I := fun s : Db × JobResult ↦ s.1.UniqueActive)
      (N := fun s ↦ s.2.dismissed) (w := fun event : Event ↦ (answers event.id).length)
      (fun s event s' hu h ↦ ?_) (fun _ _ _ hu h ↦ (dismissed_processEvent hu h).1)
      (fun _ _ _ hu h ↦ (dismissed_processEvent hu h).2) hu' h ?_
    · exact processEvent_unique hu h
    · rw [hcount, rawCount]
      exact (Nat.zero_add _).symm
  · intro hC
    obtain ⟨state', h, hfacts, hsets, hcount⟩ := foldlM_total
      (f := processEvent env (fixedAnswers answers)) (fun event ↦ (answers event.id).length)
      (I := fun n (s : Db × JobResult) ↦ s.1.facts = db.facts ∧
        s.1.conflictSets = db.conflictSets ∧ s.2.dismissed = n)
      (fun n s event hI hC ↦ by
        obtain ⟨s', hs', hfacts, hsets, hcount⟩ := processEvent_recognized hC
        exact ⟨s', hs', hfacts.trans hI.1, hsets.trans hI.2.1, by rw [hcount, hI.2.2]⟩)
      (by rw [hembed]; exact ⟨rfl, rfl, rfl⟩) hC
    refine ⟨state', h, by rw [hfacts], by rw [hsets], ?_⟩
    rw [hcount, rawCount]
    exact Nat.zero_add _

end

/-! ## Candidates that keep a job quiet -/

/-- The wording of the row a candidate is written as. -/
def writtenWording (env : Env) (event : Event) (c : Candidate) (existing : Option Fact) : Wording :=
  ⟨event.scope, c.predicate, storedValue c existing event, attributed c.qualifiers event,
    memoryFormOf c existing, candidateEmbedding env c⟩

/-- The candidate takes the place of the matched fact, or there is none. -/
def Activated (event : Event) (c : Candidate) (existing : Option Fact) : Prop :=
  ¬ HeldBack event existing ∧ (existing = none ∨ c.action = .supersede)

instance (event : Event) (c : Candidate) (existing : Option Fact) :
    Decidable (Activated event c existing) := inferInstanceAs (Decidable (_ ∧ _))

/-- The fact the candidate takes the place of. -/
def replacedFact (event : Event) (c : Candidate) (existing : Option Fact) : Option FactId :=
  if Activated event c existing then existing.map Fact.id else none

/-- The open set of a contradicted fact has room for the candidate. -/
def HasRoom (db : Db) (event : Event) (existing : Option Fact) : Prop :=
  ∀ old ∈ existing, ∀ s ∈ db.openConflictSet event.scope old.id,
    s.factIds.length < conflictSetMaxMembers

instance (event : Event) (existing : Option Fact) : Decidable (HasRoom db event existing) :=
  inferInstanceAs (Decidable (∀ _ ∈ _, ∀ _ ∈ _, _))

open Assertion

/-- The candidate settles what it says.  A duplicate says it, or those the lookup may return do under
another name.  A row says it, and is activated; or it waits while the lookup finds nothing
active, and overflows no conflict set. -/
def Settles (env : Env) (event : Event) (db : Db) (c : Candidate) : Prop :=
  match matchCandidate env db c (candidateEmbedding env c) event with
  | (.duplicate f, db) =>
    (event.asserts c).SaidBy f.wording ∨
      (event.asserts c).Elsewhere env db none (some (f.id, event.id))
  | (.against c' existing, db) =>
    (event.asserts c).SaidBy (writtenWording env event c' existing) ∧
      (Activated event c' existing ∨
        (HeldBack event existing ∨ HasRoom db event existing) ∧
          ∀ f ∈ db.facts, f.Live none → ¬ (event.asserts c).Reaches env db f.wording)

/-- The candidate leaves settled what another assertion says: the synonym it teaches, the fact it
replaces and the row it is written as do not get in the way. -/
def Spares (env : Env) (event : Event) (db : Db) (c : Candidate) (p : Assertion) : Prop :=
  match matchCandidate env db c (candidateEmbedding env c) event with
  | (.duplicate f, db) => p.Settled env db none (some (f.id, event.id))
  | (.against c' existing, db) =>
    p.Settled env db (replacedFact event c' existing) none ∧
      p.LeftBy env db (replacedFact event c' existing) (writtenWording env event c' existing)
        (Activated event c' existing) event.id

/-- The candidate settles what it says, and unsettles none of the assertions. -/
def Quiet (env : Env) (assertions : List Assertion) (event : Event) (db : Db) (c : Candidate) :
    Prop :=
  Settles env event db c ∧
    ∀ p ∈ assertions, p.Settled env db none none → Spares env event db c p

instance (event : Event) : Decidable (Settles env event db c) :=
  match hm : matchCandidate env db c (candidateEmbedding env c) event with
  | (.duplicate f, db) =>
    decidable_of_iff ((event.asserts c).SaidBy f.wording ∨
      (event.asserts c).Elsewhere env db none (some (f.id, event.id))) (by rw [Settles, hm])
  | (.against c' existing, db) =>
    decidable_of_iff ((event.asserts c).SaidBy (writtenWording env event c' existing) ∧
      (Activated event c' existing ∨ (HeldBack event existing ∨ HasRoom db event existing) ∧
        ∀ f ∈ db.facts, f.Live none → ¬ (event.asserts c).Reaches env db f.wording))
      (by rw [Settles, hm])

instance (event : Event) (p : Assertion) : Decidable (Spares env event db c p) :=
  match hm : matchCandidate env db c (candidateEmbedding env c) event with
  | (.duplicate f, db) =>
    decidable_of_iff (p.Settled env db none (some (f.id, event.id))) (by rw [Spares, hm])
  | (.against c' existing, db) =>
    decidable_of_iff (p.Settled env db (replacedFact event c' existing) none ∧
      p.LeftBy env db (replacedFact event c' existing) (writtenWording env event c' existing)
        (Activated event c' existing) event.id) (by rw [Spares, hm])

instance (assertions : List Assertion) (event : Event) :
    Decidable (Quiet env assertions event db c) := inferInstanceAs (Decidable (_ ∧ _))

section

variable {c' : Candidate} {existing : Option Fact} {result result' : JobResult} {db' : Db}

/-- A candidate that is a duplicate, as a step. -/
theorem applyCandidate_duplicate_stepsTo {db₁ : Db}
    (hm : matchCandidate env db c embedding event = (.duplicate f, db₁))
    (h : applyCandidate env db c embedding event result = .ok (db', result')) :
    db₁.StepsTo db' none (some (f.id, event.id)) none := by
  obtain ⟨aliases, hsnd⟩ := matchCandidate_snd env db c embedding event
  have hf := (matchCandidate_duplicate (congrArg Prod.fst hm)).mem
  rw [hm] at hsnd
  rw [applyCandidate, hm] at h
  have hmem : f ∈ db₁.facts := by rw [show db₁ = _ from hsnd]; exact hf
  have hstep := Db.StepsTo.duplicate hmem event result
  rw [show reinforceOrCountDuplicate db₁ f event result = _ from Except.ok.inj h] at hstep
  exact hstep

theorem Effect.onRow_wording {e : Effect} {row : Fact} (he : ∀ old s other, e ≠ .overflow old s other) :
    (e.onRow env row).wording = row.wording := by
  cases e with
  | overflow old s other => exact absurd rfl (he old s other)
  | _ => rfl

theorem not_activated_of_contradicts {memoryForm : MemoryForm} {old : Fact}
    (h : Contradicts event c existing memoryForm old) : ¬ Activated event c existing := by
  rintro ⟨-, hnone | hact⟩
  · exact nomatch hnone.symm.trans h.matched
  · exact h.create hact

/-- A row that is no occurrence, and overflows no set, is activated or waits. -/
theorem Adjudicated.activated {row : Fact} {e : Effect}
    (hadj : Adjudicated env db event c c' existing row e) (hform : memoryFormOf c' existing ≠ .event)
    (hroom : Activated event c' existing ∨ HeldBack event existing ∨ HasRoom db event existing) :
    (∀ old s other, e ≠ .overflow old s other) ∧ replacedFact event c' existing = e.closes ∧
      (Activated event c' existing ∧ (e.onRow env row).status = .active ∨
        ¬ Activated event c' existing ∧ (e.onRow env row).status = .candidate) := by
  have hguard := hadj.guard
  cases e with
  | hold =>
    have hnot : ¬ Activated event c' existing := fun h ↦ h.1 hguard
    exact ⟨by simp, if_neg hnot, .inr ⟨hnot, hadj.status⟩⟩
  | accept =>
    obtain ⟨hheld, hx⟩ := hguard
    cases existing with
    | none =>
      have hact : Activated event c' none := ⟨hheld, .inl rfl⟩
      exact ⟨by simp, if_pos hact, .inl ⟨hact, rfl⟩⟩
    | some old =>
      -- A scalar with another value would have been contradicted.
      obtain ⟨hact, hsame⟩ := hx old rfl
      have hcreate : c'.action = .create := by
        cases hc : c'.action with
        | create => rfl
        | supersede => exact absurd hc hact
      rcases hsame with hevent | hvalue
      · exact absurd (hadj.memoryForm.symm.trans hevent) hform
      · exact absurd hvalue (hadj.differs hcreate old rfl hform)
  | replace old =>
    obtain ⟨hheld, rfl, hact⟩ := hguard
    have hact : Activated event c' (some old) := ⟨hheld, .inr hact⟩
    exact ⟨by simp, if_pos hact, .inl ⟨hact, rfl⟩⟩
  | openConflict | joinConflict =>
    obtain ⟨old, hc, -⟩ := hguard
    have hnot := not_activated_of_contradicts hc
    exact ⟨by simp, if_neg hnot, .inr ⟨hnot, hadj.status⟩⟩
  | overflow old conflict other =>
    obtain ⟨old, hc, rfl, hfull, -⟩ := hguard
    rcases hroom with hact | hheld | hroom
    · exact absurd hact (not_activated_of_contradicts hc)
    · exact absurd hheld hc.notHeld
    · exact absurd hfull.full (not_le.mpr (hroom _ hc.matched conflict hfull.openSet))

/-- A candidate that is no occurrence and overflows no set, as a step. -/
theorem applyCandidate_against_stepsTo (hu : db.UniqueActive) {db₁ : Db}
    (hm : matchCandidate env db c (candidateEmbedding env c) event = (.against c' existing, db₁))
    (hform : memoryFormOf c' existing ≠ .event)
    (hroom : Activated event c' existing ∨ HeldBack event existing ∨ HasRoom db₁ event existing)
    (h : applyCandidate env db c (candidateEmbedding env c) event result = .ok (db', result')) :
    ∃ r, db₁.StepsTo db' (replacedFact event c' existing) none (some r) ∧
      r.wording = writtenWording env event c' existing ∧ event.id ∈ r.sourceEventIds ∧
      (Activated event c' existing ∧ r.status = .active ∨
        ¬ Activated event c' existing ∧ r.status = .candidate) := by
  have haliases := applyCandidate_predicateAliases hu h
  obtain ⟨aliases, hsnd⟩ := matchCandidate_snd env db c (candidateEmbedding env c) event
  obtain ⟨_, row, e, hrow, he, -, rfl, -⟩ := applyCandidate_written hu (congrArg Prod.fst hm) h
  rw [hm] at hsnd haliases
  obtain rfl : db₁ = { db with predicateAliases := aliases } := hsnd
  have hadj := adjudicated_of_row (congrArg Prod.fst hm) hrow he
  obtain ⟨hover, hclosed, hstatus⟩ := hadj.activated hform hroom
  have hstep := hadj.stepsTo hover
  refine ⟨e.onRow env row, ?_, ?_, ?_, hstatus⟩
  · rw [hclosed]
    exact ⟨hstep.facts, haliases, hstep.contextTraces, hstep.fresh⟩
  · rw [Effect.onRow_wording hover]
    obtain ⟨_, _, rfl⟩ := candidateRow_eq_ok hrow
    rcases hadj.candidate with rfl | rfl <;> rfl
  · have hsources : (e.onRow env row).sourceEventIds = row.sourceEventIds :=
      (congrArg Fact.sourceEventIds (e.onRow_content row) :
        (e.onRow env row).content.sourceEventIds = row.content.sourceEventIds)
    rw [hsources, hadj.sourceEventIds]
    exact List.mem_cons_self

/-- A candidate that settles what it says does so. -/
theorem Settles.settled (hu : db.UniqueActive) (hs : Settles env event db c)
    (h : applyCandidate env db c (candidateEmbedding env c) event result = .ok (db', result')) :
    (event.asserts c).Settled env db' none none := by
  rw [Settles] at hs
  split at hs
  · next f db₁ hm =>
    have hsettled : (event.asserts c).Settled env db₁ none (some (f.id, event.id)) := by
      rcases hs with hsaid | helsewhere
      · exact .of_duplicate hm hsaid
      · exact .inr (.inr helsewhere)
    exact hsettled.stepsTo_none (applyCandidate_duplicate_stepsTo hm h)
  · next c' existing db₁ hm =>
    obtain ⟨hsaid, hwaits⟩ := hs
    obtain ⟨aliases, hsnd⟩ := matchCandidate_snd env db c (candidateEmbedding env c) event
    have hfacts : db₁.facts = db.facts := by
      rw [hm] at hsnd
      rw [show db₁ = _ from hsnd]
    have hunsaid : ∀ f ∈ db₁.facts, f.Live none → ¬ (event.asserts c).SaidBy f.wording :=
      fun f hf ↦ unsaid_of_against (congrArg Prod.fst hm) (hfacts ▸ hf)
    obtain ⟨r, hstep, hwording, hlisted, hstatus⟩ := applyCandidate_against_stepsTo hu hm hsaid.2.2.1
      (hwaits.imp_right And.left) h
    rw [← hwording] at hsaid
    rcases hstatus with ⟨-, ha⟩ | ⟨hnot, hcandidate⟩
    · refine .inl (.of_row hstep (fun f hf hlive ↦ ?_) ha hsaid hlisted)
      exact hunsaid f hf (Fact.live_none.mpr hlive.1)
    · have hunreached := (hwaits.resolve_left hnot).2
      refine .inr (.inl (.of_row hstep (fun f hf hlive ↦ ?_) hcandidate hsaid))
      have hlive := Fact.live_none.mpr hlive.1
      exact ⟨hunsaid f hf hlive, hunreached f hf hlive⟩

/-- A candidate that spares an assertion leaves it settled. -/
theorem Spares.settled {p : Assertion} (hu : db.UniqueActive) (hs : Settles env event db c)
    (hp : Spares env event db c p)
    (h : applyCandidate env db c (candidateEmbedding env c) event result = .ok (db', result')) :
    p.Settled env db' none none := by
  rw [Spares] at hp
  rw [Settles] at hs
  split at hp
  · next f db₁ hm => exact hp.stepsTo_none (applyCandidate_duplicate_stepsTo hm h)
  · next c' existing db₁ hm =>
    rw [hm] at hs
    obtain ⟨r, hstep, hwording, hlisted, hstatus⟩ := applyCandidate_against_stepsTo hu hm hs.1.2.2.1
      (hs.2.imp_right And.left) h
    have hactive : r.status = .active ↔ Activated event c' existing := by
      rcases hstatus with ⟨hact, ha⟩ | ⟨hnot, hcandidate⟩
      · exact iff_of_true ha hact
      · exact iff_of_false (by rw [hcandidate]; decide) hnot
    refine hp.1.stepsTo hstep hlisted ?_
    rw [LeftBy, hwording, hactive]
    exact hp.2

/-- Applied again, the candidate is dismissed. -/
def Stable (env : Env) (event : Event) (db : Db) (c : Candidate) : Prop :=
  antiEchoReason env event db c = none → (event.asserts c).Settled env db none none

/-- A candidate that settles what it says makes nothing an echo, and no echo something else. -/
theorem Settles.antiEchoReason (hu : db.UniqueActive) (hs : Settles env event db c)
    (h : applyCandidate env db c (candidateEmbedding env c) event result = .ok (db', result'))
    (event₂ : Event) (c₂ : Candidate) :
    antiEchoReason env event₂ db' c₂ = antiEchoReason env event₂ db c₂ := by
  obtain ⟨aliases, hsnd⟩ := matchCandidate_snd env db c (candidateEmbedding env c) event
  rw [Settles] at hs
  split at hs
  · next f db₁ hm =>
    rw [hm] at hsnd
    obtain rfl : db₁ = { db with predicateAliases := aliases } := hsnd
    exact (applyCandidate_duplicate_stepsTo hm h).antiEchoReason event₂ c₂
  · next c' existing db₁ hm =>
    obtain ⟨r, hstep, -⟩ := applyCandidate_against_stepsTo hu hm hs.1.2.2.1
      (hs.2.imp_right And.left) h
    rw [hm] at hsnd
    obtain rfl : db₁ = { db with predicateAliases := aliases } := hsnd
    exact hstep.antiEchoReason event₂ c₂

/-- A quiet candidate becomes stable, and leaves stable what is. -/
theorem applyAdmitted_stable {assertions : List Assertion} {state state' : Db × JobResult}
    (hu : state.1.UniqueActive)
    (hC : antiEchoReason env event state.1 c = none → Quiet env assertions event state.1 c)
    (h : applyAdmitted env event state c = .ok state') :
    Stable env event state'.1 c ∧ ∀ event₂ c₂, event₂.asserts c₂ ∈ assertions →
      Stable env event₂ state.1 c₂ → Stable env event₂ state'.1 c₂ := by
  rcases applyAdmitted_cases h with ⟨reason, hr, rfl⟩ | ⟨hn, h⟩
  · exact ⟨fun hn ↦ (by cases hr.symm.trans hn), fun _ _ _ hstable ↦ hstable⟩
  · obtain ⟨hsettles, hspares⟩ := hC hn
    refine ⟨fun _ ↦ hsettles.settled hu h, fun event₂ c₂ hmem hstable hn₂ ↦ ?_⟩
    rw [hsettles.antiEchoReason hu h] at hn₂
    exact (hspares _ hmem (hstable hn₂)).settled hu hsettles h

end

/-! ## Replays -/

section

variable {answers : EventId → List RawCandidate} {state state' : Db × JobResult}
  {eventIds : List EventId} {only : Option (List EventId)}

/-- What the events of a job say. -/
def jobAssertions (env : Env) (answers : EventId → List RawCandidate) (db : Db)
    (eventIds : List EventId) (only : Option (List EventId)) : List Assertion :=
  (jobEvents db eventIds only).flatMap fun event ↦
    (admitted env event (answers event.id)).map event.asserts

/-- A quiet event becomes stable, and leaves stable what is. -/
theorem processEvent_stable {assertions : List Assertion} (hu : state.1.UniqueActive)
    (hmem : ∀ c ∈ admitted env event (answers event.id), event.asserts c ∈ assertions)
    (hC : EventMeets env (fixedAnswers answers) (Quiet env assertions) state event)
    (h : processEvent env (fixedAnswers answers) state event = .ok state') :
    (∀ c ∈ admitted env event (answers event.id), Stable env event state'.1 c) ∧
      ∀ event₂ c₂, event₂.asserts c₂ ∈ assertions →
        Stable env event₂ state.1 c₂ → Stable env event₂ state'.1 c₂ := by
  obtain ⟨raws, s, events, hraws, hs, rfl⟩ := processEvent_eq_ok h
  obtain rfl := Option.some.inj hraws
  have hrun := foldlM_settles
    (I := fun s : Db × JobResult ↦ s.1.UniqueActive)
    (S := fun s (i : Event × Candidate) ↦ Stable env i.1 s.1 i.2) (L := fun c ↦ [(event, c)])
    (K := fun i ↦ i.1.asserts i.2 ∈ assertions)
    (s := (state.1, (answers event.id).foldl (countGate env event) state.2))
    (fun s c s' hu hC hs ↦ by
      obtain ⟨hstable, hkeep⟩ := applyAdmitted_stable hu hC hs
      refine ⟨applyAdmitted_unique hu hs, fun i hi ↦ ?_, fun i ↦ hkeep i.1 i.2⟩
      obtain rfl := List.mem_singleton.mp hi
      exact hstable)
    (fun c hc i hi ↦ by
      obtain rfl := List.mem_singleton.mp hi
      exact hmem c hc) hu (hC _ rfl) hs
  exact ⟨fun c hc ↦ hrun.2.1 c hc (event, c) List.mem_cons_self,
    fun event₂ c₂ ↦ hrun.2.2 (event₂, c₂)⟩

/-- A quiet job leaves all it applied stable. -/
theorem processJob_stable (hu : db.UniqueActive)
    (hC : JobMeets env (fixedAnswers answers)
      (Quiet env (jobAssertions env answers db eventIds only)) db eventIds only)
    (h : processJob env (fixedAnswers answers) db eventIds only = .ok state') :
    ∀ event ∈ jobEvents db eventIds only, ∀ c ∈ admitted env event (answers event.id),
      Stable env event state'.1 c := by
  obtain ⟨events, hembed⟩ := foldl_embedEvent_eq env db (jobEvents db eventIds only)
  have hu' : ((jobEvents db eventIds only).foldl (embedEvent env) db).UniqueActive := hembed ▸ hu
  have hmem : ∀ event ∈ jobEvents db eventIds only, ∀ c ∈ admitted env event (answers event.id),
      event.asserts c ∈ jobAssertions env answers db eventIds only :=
    fun event he c hc ↦ List.mem_flatMap.mpr ⟨event, he, List.mem_map_of_mem hc⟩
  have hrun := foldlM_settles
    (C := fun s event ↦ EventMeets env (fixedAnswers answers)
      (Quiet env (jobAssertions env answers db eventIds only)) s event ∧
        event ∈ jobEvents db eventIds only)
    (I := fun s : Db × JobResult ↦ s.1.UniqueActive)
    (S := fun s (i : Event × Candidate) ↦ Stable env i.1 s.1 i.2)
    (L := fun event ↦ (admitted env event (answers event.id)).map (event, ·))
    (K := fun i ↦ i.1.asserts i.2 ∈ jobAssertions env answers db eventIds only)
    (fun s event s' hu hC hs ↦ by
      obtain ⟨hstable, hkeep⟩ := processEvent_stable hu (hmem event hC.2) hC.1 hs
      refine ⟨processEvent_unique hu hs, fun i hi ↦ ?_, fun i ↦ hkeep i.1 i.2⟩
      obtain ⟨c, hc, rfl⟩ := List.mem_map.mp hi
      exact hstable c hc)
    (fun event he i hi ↦ by
      obtain ⟨c, hc, rfl⟩ := List.mem_map.mp hi
      exact hmem event he c hc) hu' (hC.and (foldMeets_of_forall_mem (fun _ he ↦ he) _)) h
  exact fun event he c hc ↦ hrun.2.1 event he (event, c) (List.mem_map_of_mem hc)

/-- A stable candidate is recognized, and leaves the ledger as it is. -/
theorem Stable.recognized (h : Stable env event db c) (hn : antiEchoReason env event db c = none) :
    Recognized env event db c := by
  obtain ⟨f, hm, hstale⟩ := (h hn).matched
  exact recognized_iff.mpr ⟨f, congrArg Prod.fst hm, hstale⟩

theorem applyAdmitted_of_stable (hstable : Stable env event state.1 c)
    (h : applyAdmitted env event state c = .ok state') : state'.1 = state.1 := by
  rcases applyAdmitted_cases h with ⟨reason, -, rfl⟩ | ⟨hn, h⟩
  · rfl
  · obtain ⟨f, hm, hstale⟩ := (hstable hn).matched
    rw [applyCandidate, hm] at h
    rw [← Except.ok.inj h, reinforceOrCountDuplicate, if_pos hstale]

/-- Of stable events, every candidate is recognized. -/
theorem eventMeets_of_stable {events : Table Event}
    (hs : state.1 = { db with events := events })
    (hstable : ∀ c ∈ admitted env event (answers event.id), Stable env event db c) :
    EventMeets env (fixedAnswers answers) (Recognized env) state event ∧
      ∀ state', processEvent env (fixedAnswers answers) state event = .ok state' →
        ∃ events', state'.1 = { db with events := events' } := by
  have hstep : ∀ s : Db × JobResult, ∀ c ∈ admitted env event (answers event.id),
      s.1 = { db with events := events } →
        (antiEchoReason env event s.1 c = none → Recognized env event s.1 c) ∧
          ∀ s', applyAdmitted env event s c = .ok s' → s'.1 = { db with events := events } := by
    intro s c hc hs
    have hstable : Stable env event s.1 c := by rw [hs]; exact hstable c hc
    exact ⟨hstable.recognized, fun s' h ↦ (applyAdmitted_of_stable hstable h).trans hs⟩
  refine ⟨fun raws hraws ↦ ?_, fun state' h ↦ ?_⟩
  · obtain rfl := Option.some.inj hraws
    exact foldMeets_of_invariant hstep hs
  · obtain ⟨raws, s, events', hraws, hrun, rfl⟩ := processEvent_eq_ok h
    obtain rfl := Option.some.inj hraws
    have hs' := foldlM_invariant (I := fun s : Db × JobResult ↦ s.1 = { db with events := events })
      (C := fun _ c ↦ c ∈ admitted env event (answers event.id))
      (s := (state.1, (answers event.id).foldl (countGate env event) state.2))
      (fun s c s' hs hc h ↦ (hstep s c hc hs).2 s' h) hs
      (foldMeets_of_forall_mem (fun _ hc ↦ hc) _) hrun
    exact ⟨events', by rw [hs']⟩

end

/-- The subject lives in Lyon and is a baker; one of its own events and one of a stranger are
captured. -/
def Sample.capturedNews : Db :=
  runOps .sample .empty (Sample.observe (Sample.event 1 .trusted)
    [Sample.create "city" "Lyon", Sample.create "job" "baker"] ++
      [.capture (Sample.event 2 .trusted), .capture (Sample.event 3 .untrusted)])

/-- The subject repeats its city under two names, changes its job, has a cat, and lives in Nice in
summer; the stranger says what it plays. -/
def Sample.newsAnswers (id : EventId) : List RawCandidate :=
  if id = 2 then
    [.valid (Sample.create "city" "Lyon"),
      .valid { Sample.create "home" "Lyon" with supersedesPredicate := some "city" },
      .valid (Sample.supersede "job" "smith"), .valid (Sample.create "pet" "cat"),
      .valid { Sample.create "city" "Nice" with qualifiers := Sample.entry "season" "summer" }]
  else [.valid (Sample.create "game" "chess")]

/-- The subject says Nice, every time. -/
def Sample.niceAnswers : EventId → List RawCandidate := fun _ ↦ [.valid (Sample.create "city" "Nice")]

/-- The subject lives in Lyon, and an event about Nice is captured. -/
def Sample.capturedNice : Db :=
  runOps .sample .empty (Sample.observe (Sample.event 1 .trusted) [Sample.create "city" "Lyon"] ++
    [.capture (Sample.event 2 .trusted)])

end Haki
