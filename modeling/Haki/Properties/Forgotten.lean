import Haki.Sample

/-!
# Facts out of service and the write path

Forget and feedback change the status of a fact and leave it in its conflict
sets.  The adjudicator walks such a set in one branch only, when the set
overflows, and activates the second member whatever its status is.
`applyCandidate_keepsOutOfService_iff` says that this branch is the only one
that can bring a fact back into service, and when it does.
-/

namespace Haki

open Data Control

variable {env : Env} {db : Db} {c : Candidate} {embedding : Embedding} {event : Event}

/-- Superseded, disputed, disabled or deleted. -/
def Fact.OutOfService (f : Fact) : Prop := f.status ≠ .candidate ∧ f.status ≠ .active

instance (f : Fact) : Decidable f.OutOfService := inferInstanceAs (Decidable (_ ∧ _))

/-- Applying the candidate activates no fact that is out of service, and no fact makes it fail
with an illegal transition. -/
def KeepsOutOfService (env : Env) (db : Db) (c : Candidate) (embedding : Embedding)
    (event : Event) : Prop :=
  ∀ result, (∀ s t, applyCandidate env db c embedding event result ≠
      .error (.illegalTransition s t)) ∧
    ∀ db' result', applyCandidate env db c embedding event result = .ok (db', result') →
      ∀ f ∈ db.facts, f.OutOfService → ∀ f' ∈ db'.facts, f'.id = f.id → f'.status ≠ .active

/-- The candidate contradicts a fact whose open set is full, and the other member of the set is
out of service. -/
def ReactivatesMember (env : Env) (db : Db) (c : Candidate) (embedding : Embedding)
    (event : Event) : Prop :=
  ∃ c' existing old conflict otherId other,
    (matchCandidate env db c embedding event).1 = .against c' existing ∧
    DatesParse env c' existing event ∧
    Contradicts event c' existing (memoryFormOf c' existing) old ∧
    FullSet db event old conflict ∧ conflict.factIds.find? (· ≠ old.id) = some otherId ∧
    db.fact? otherId = some other ∧ other.OutOfService

/-- Contradicting a fact of a full set whose other member is out of service fails, or activates
that member. -/
theorem contradictionOf_outOfService {old other : Fact} {conflict : ConflictSet} {otherId : FactId}
    (hfull : FullSet db event old conflict)
    (hfind : conflict.factIds.find? (· ≠ old.id) = some otherId)
    (hother : db.fact? otherId = some other) :
    contradictionOf db event old =
      if other.status = .deleted then .error (.illegalTransition .deleted .active)
      else .ok (.overflow old conflict (some other)) := by
  rw [contradictionOf, hfull.openSet]
  dsimp only
  rw [if_pos hfull.full, hfind]
  dsimp only
  rw [hother]

/-- An effect activates no fact that is out of service, except the other member of a set that
overflows. -/
theorem Effect.apply_keepsOutOfService {c' : Candidate} {existing : Option Fact} {row : Fact}
    {e : Effect} {f f' : Fact} (hmatch : Matched db event c c' existing)
    (hguard : e.Guard db event c' existing row.memoryForm) (hf : f ∈ db.facts)
    (hout : f.OutOfService) (hfresh : db.facts.Fresh row)
    (hf' : f' ∈ (e.apply env event db row).facts) (hid : f'.id = f.id) (hact : f'.status = .active) :
    ∃ old conflict, e = .overflow old conflict (some f) ∧
      Contradicts event c' existing row.memoryForm old ∧ FullSet db event old conflict ∧
      ∃ otherId, conflict.factIds.find? (· ≠ old.id) = some otherId ∧ db.fact? otherId = some f := by
  rcases (Effect.mem_apply hfresh).mp hf' with ⟨g, hg, rfl⟩ | rfl
  · obtain rfl : g = f := Db.eq_of_id_eq hg hf (by simpa using hid)
    rcases e.onFact_cases g with he | ⟨old, rfl, -, he⟩ | ⟨old, conflict, other, rfl, hmem, -⟩
    · exact absurd (he ▸ hact) hout.2
    · rw [he] at hact
      cases hact
    · obtain ⟨old', hcontra, rfl, hfull, otherId, hfind, rfl, -⟩ := hguard
      have hold := hmatch.active old hcontra.matched
      rcases hmem with hmem | ⟨o, ho, hmem⟩
      · obtain rfl := Db.eq_of_id_eq hf hold.1 hmem
        exact absurd hold.2.2 hout.2
      · obtain rfl := Db.eq_of_id_eq hf (Db.mem_of_fact? ho) hmem
        rw [Option.mem_def] at ho
        exact ⟨old, conflict, by rw [ho], hcontra, hfull, otherId, hfind, ho⟩
  · exact absurd (by simpa using hid.symm) (hfresh f hf)

/-- A candidate that is counted or reinforces a fact changes no status. -/
theorem applyCandidate_duplicate_status {db' : Db} {result result' : JobResult} {d : Fact}
    (hu : db.UniqueActive) (hm : (matchCandidate env db c embedding event).1 = .duplicate d)
    (h : applyCandidate env db c embedding event result = .ok (db', result')) :
    ∀ f' ∈ db'.facts, ∃ f ∈ db.facts, f.status = f'.status ∧ f.id = f'.id := by
  intro f' hf'
  cases applyCandidate_applied hu h with
  | counted => exact ⟨f', hf', rfl, rfl⟩
  | reinforced =>
    obtain ⟨f, hf, rfl⟩ := mem_reinforced.mp hf'
    exact ⟨f, hf, by split <;> exact ⟨rfl, rfl⟩⟩
  | written _ _ _ _ _ hm' => cases hm.symm.trans hm'

/-- **Forgotten stays forgotten.**  Applying a candidate activates no superseded, disputed,
disabled or deleted fact and never fails with an illegal transition, exactly when it does not
overflow a set whose other member is out of service. -/
theorem applyCandidate_keepsOutOfService_iff (hu : db.UniqueActive) :
    KeepsOutOfService env db c embedding event ↔ ¬ ReactivatesMember env db c embedding event := by
  constructor
  · rintro h ⟨c', existing, old, conflict, otherId, other, hm, hd, hcontra, hfull, hfind, hother,
      hout⟩
    obtain ⟨aliases, heq⟩ := applyCandidate_against hu hm
    obtain ⟨-, row, hrow⟩ | ⟨hd', -⟩ := candidateRow_cases env db c' existing embedding event
    · have heffect : effectOf db c' existing (memoryFormOf c' existing) event = _ :=
        hcontra.effectOf
      rw [contradictionOf_outOfService hfull hfind hother,
        ← candidateRow_memoryForm hrow] at heffect
      by_cases hdel : other.status = .deleted
      · refine (h {}).1 .deleted .active ?_
        rw [heq, hrow, ok_bind, heffect, if_pos hdel]
        rfl
      · have hfresh := candidateRow_fresh hrow
        have hu' : ({ Effect.apply env event db row (.overflow old conflict (some other)) with
            predicateAliases := aliases } : Db).UniqueActive :=
          (flush_eq_ok.mp (flush_apply_overflow hu hfresh)).2
        have happly := (h {}).2 _ _ (by
          rw [heq, hrow, ok_bind, heffect, if_neg hdel, ok_bind, flush_of_unique hu']
          rfl)
        have hm' := Db.mem_of_fact? hother
        refine happly other hm' hout (other.asOccurrence env.now)
          ((Effect.mem_apply hfresh).mpr (.inl ⟨other, hm', ?_⟩)) (other.asOccurrence_id env.now)
          (other.asOccurrence_status env.now)
        exact if_pos (.inr ⟨other, rfl, rfl⟩)
    · exact hd' hd
  · intro h result
    refine ⟨fun source target hfail ↦ ?_, fun db' result' hok f hf hout f' hf' hid hact ↦ ?_⟩
    · obtain ⟨c', existing, row, old, hm, hrow, hcontra, herror⟩ := applyCandidate_illegal hu hfail
      obtain ⟨conflict, hfull, ⟨-, hs⟩ | ⟨otherId, other, hfind, hother, hdel, -⟩⟩ :=
        contradictionOf_eq_error herror
      · cases hs
      · exact h ⟨c', existing, old, conflict, otherId, other, hm, datesParse_of_row hrow,
          candidateRow_memoryForm hrow ▸ hcontra, hfull, hfind, hother, by simp [hdel],
          by simp [hdel]⟩
    · cases hm : (matchCandidate env db c embedding event).1 with
      | duplicate d =>
        obtain ⟨g, hg, hstatus, hgid⟩ := applyCandidate_duplicate_status hu hm hok f' hf'
        obtain rfl := Db.eq_of_id_eq hg hf (hgid.trans hid)
        exact hout.2 (hstatus.trans hact)
      | against c' existing =>
        obtain ⟨aliases, row, e, hrow, he, -, rfl, -⟩ := applyCandidate_written hu hm hok
        obtain ⟨old, conflict, -, hcontra, hfull, otherId, hfind, hother⟩ :=
          Effect.apply_keepsOutOfService (matchCandidate_against hm) (effectOf_guard he) hf hout
            (candidateRow_fresh hrow) hf' hid hact
        exact h ⟨c', existing, old, conflict, otherId, f, hm, datesParse_of_row hrow,
          candidateRow_memoryForm hrow ▸ hcontra, hfull, hfind, hother, hout⟩

/-- `Nice` contradicts `Lyon`, and the subject disables `Nice`. -/
def Sample.disabledNice : Db :=
  runOps .sample .empty
    (Sample.observe (Sample.event 1 .trusted) [Sample.create "city" "Lyon"] ++
      Sample.observe (Sample.event 2 .trusted) [Sample.create "city" "Nice"] ++
      [.forgetFact 3 "project" ⟨2, 0⟩ .disable])

/-- A candidate that replaces `Lyon` does not walk the set `Nice` is in. -/
theorem applyCandidate_keepsOutOfService_disabledNice :
    (∃ f ∈ Sample.disabledNice.facts, f.OutOfService ∧
      ∃ s ∈ Sample.disabledNice.conflictSets, s.status = .open ∧ f.id ∈ s.factIds) ∧
    KeepsOutOfService .sample Sample.disabledNice (Sample.supersede "city" "Paris")
      (candidateEmbedding .sample (Sample.supersede "city" "Paris")) (Sample.event 4 .trusted) := by
  have hreplaces : ¬ ∃ c' existing, (matchCandidate .sample Sample.disabledNice
      (Sample.supersede "city" "Paris") (candidateEmbedding .sample
        (Sample.supersede "city" "Paris")) (Sample.event 4 .trusted)).1 = .against c' existing ∧
      c'.action ≠ .supersede := by decide +kernel
  refine ⟨by decide +kernel, ?_⟩
  refine (applyCandidate_keepsOutOfService_iff (by decide +kernel)).mpr ?_
  rintro ⟨c', existing, old, conflict, otherId, other, hm, -, hcontra, -⟩
  exact hreplaces ⟨c', existing, hm, hcontra.create⟩

/-- A disabled fact that consolidation brings back: a third value overflows its set. -/
theorem disabled_fact_reactivated :
    ∃ db c event, Reachable .sample (fun _ ↦ True) db ∧
      ∃ f ∈ db.facts, f.status = .disabled ∧
        ∃ db' result', applyCandidate .sample db c (candidateEmbedding .sample c) event {} =
          .ok (db', result') ∧ ∃ f' ∈ db'.facts, f'.id = f.id ∧ f'.status = .active := by
  have hbefore : (Sample.disabledNice.fact? ⟨2, 0⟩).map Fact.status = some .disabled := by
    decide +kernel
  have hafter : ((applyCandidate .sample Sample.disabledNice (Sample.create "city" "Paris")
      (candidateEmbedding .sample (Sample.create "city" "Paris")) (Sample.event 4 .trusted)
      {}).toOption.bind fun s ↦ (s.1.fact? ⟨2, 0⟩).map Fact.status) = some .active := by
    decide +kernel
  obtain ⟨f, hf, hdisabled⟩ := Option.map_eq_some_iff.mp hbefore
  obtain ⟨⟨db', result'⟩, hok, hafter⟩ := Option.bind_eq_some_iff.mp hafter
  obtain ⟨f', hf', hactive⟩ := Option.map_eq_some_iff.mp hafter
  exact ⟨Sample.disabledNice, _, _, ⟨_, fun _ _ ↦ trivial, rfl⟩, f, Db.mem_of_fact? hf, hdisabled,
    db', result', toOption_eq_some.mp hok, f', Db.mem_of_fact? hf',
    (Db.id_of_fact? hf').trans (Db.id_of_fact? hf).symm, hactive⟩

end Haki
