import Haki.Api.Stats
import Haki.Control.Chain
import Haki.Sample

/-!
# Every candidate is counted once

A job reports six counters that partition the raw candidates the extractor
returned, and the health endpoint divides by their sum.  One step of a job is
one raw candidate: it is dropped by the write gate, dropped as an echo, counted
as a duplicate, reinforces a fact, or is written.  `Counted` says what such a
step does to the counters and to the rows of `facts`; a job is a run of such
steps.
-/

namespace Haki

open Data Control

/-! ## Counters -/

/-- The counters that partition the candidates. -/
inductive Counter where
  | created | conflicts | duplicates | reinforced | quarantined | rejected
deriving DecidableEq, Repr

namespace JobResult

/-- The value of a counter. -/
def counter (r : JobResult) : Counter → Nat
  | .created => r.created
  | .conflicts => r.conflicts
  | .duplicates => r.duplicates
  | .reinforced => r.reinforced
  | .quarantined => r.quarantined
  | .rejected => r.rejected

/-- One is added to the counter `c`, and nothing to the others. -/
def Increments (r r' : JobResult) (c : Counter) : Prop :=
  ∀ d, r'.counter d = r.counter d + if d = c then 1 else 0

/-- The candidates for which a row was written. -/
def written (r : JobResult) : Nat := r.created + r.conflicts + r.quarantined

end JobResult

/-- `REJECT_REASONS`. -/
def rejectReasons : List RejectReason :=
  [.echoOfContext, .systemNoise, .configDump, .transientState, .unsupportedInference,
    .agentSelfReference, .noEvidenceSpan, .imperativeDirective, .untrustedInstruction]

/-- The sum of `rejected_with_reason`. -/
def JobResult.reasons (r : JobResult) : Nat := (rejectReasons.map r.rejectedWithReason).sum

/-- Updating one reason moves the sum by one. -/
theorem recordRejection_reasons (r : JobResult) (reason : RejectReason) :
    (recordRejection r reason).reasons = r.reasons + 1 := by
  cases reason <;>
    simp [JobResult.reasons, recordRejection, rejectReasons, Function.update] <;> omega

/-- The candidate failed validation. -/
def RawCandidate.isInvalid : RawCandidate → Bool
  | .invalid => true
  | _ => false

/-! ## One step -/

/-- What is accounted for: the primary keys of the facts, and the counters. -/
def accounts (state : Db × JobResult) : List FactId × JobResult :=
  (state.1.facts.rows.map Fact.id, state.2)

/-- What some raw candidates did to the accounts. -/
structure Tally (s : List FactId × JobResult) (raws : List RawCandidate)
    (s' : List FactId × JobResult) : Prop where
  candidates : s'.2.candidates = s.2.candidates + raws.length
  rows : ∃ ids, s'.1 = s.1 ++ ids ∧ s'.2.written = s.2.written + ids.length
  superseded : s'.2.superseded + s.2.created ≤ s.2.superseded + s'.2.created
  reclassifiedEvent : s'.2.reclassifiedEvent + s.2.created ≤ s.2.reclassifiedEvent + s'.2.created
  supersedeWithoutExisting : s'.2.supersedeWithoutExisting + s.2.created ≤
    s.2.supersedeWithoutExisting + s'.2.created
  reasons : s'.2.rejected + s.2.reasons =
    s.2.rejected + s'.2.reasons + raws.countP RawCandidate.isInvalid

/-- What one raw candidate does to the accounts. -/
structure Counted (s : List FactId × JobResult) (raw : RawCandidate)
    (s' : List FactId × JobResult) : Prop where
  counter : ∃ c, s.2.Increments s'.2 c
  tally : Tally s [raw] s'

theorem Tally.nil (s : List FactId × JobResult) : Tally s [] s where
  candidates := rfl
  rows := ⟨[], (List.append_nil _).symm, rfl⟩
  superseded := Nat.le_refl _
  reclassifiedEvent := Nat.le_refl _
  supersedeWithoutExisting := Nat.le_refl _
  reasons := rfl

theorem Tally.cons {s t s' : List FactId × JobResult} {raw : RawCandidate}
    {raws : List RawCandidate} (h : Tally s [raw] t) (h' : Tally t raws s') :
    Tally s (raw :: raws) s' where
  candidates := by
    have h₁ := h.candidates
    have h₂ := h'.candidates
    simp only [List.length_cons, List.length_nil] at h₁ ⊢
    omega
  rows := by
    obtain ⟨ids, hids, hlength⟩ := h.rows
    obtain ⟨ids', hids', hlength'⟩ := h'.rows
    refine ⟨ids ++ ids', by rw [hids', hids, List.append_assoc], ?_⟩
    rw [hlength', hlength, List.length_append, Nat.add_assoc]
  superseded := by
    have h₁ := h.superseded
    have h₂ := h'.superseded
    omega
  reclassifiedEvent := by
    have h₁ := h.reclassifiedEvent
    have h₂ := h'.reclassifiedEvent
    omega
  supersedeWithoutExisting := by
    have h₁ := h.supersedeWithoutExisting
    have h₂ := h'.supersedeWithoutExisting
    omega
  reasons := by
    have h₁ := h.reasons
    have h₂ := h'.reasons
    simp only [List.countP_cons, List.countP_nil] at h₁ ⊢
    omega

/-- A run of steps is tallied. -/
theorem Counted.tally_of_steps {s s' : List FactId × JobResult} {raws : List RawCandidate}
    (h : Steps Counted s raws s') : Tally s raws s' :=
  h.total Tally.nil fun _ _ _ _ _ h h' ↦ h.tally.cons h'

section Steps

variable {env : Env} {event : Event} {ids : List FactId} {r : JobResult} {raw : RawCandidate}

/-- A rejection with a reason. -/
theorem Counted.rejection (reason : RejectReason) (h : raw.isInvalid = false) :
    Counted (ids, r) raw (ids, recordRejection r reason) where
  counter := ⟨.rejected, fun d ↦ by cases d <;> rfl⟩
  tally :=
    { candidates := rfl
      rows := ⟨[], (List.append_nil _).symm, rfl⟩
      superseded := Nat.le_refl _
      reclassifiedEvent := Nat.le_refl _
      supersedeWithoutExisting := Nat.le_refl _
      reasons := by
        rw [recordRejection_reasons, List.countP_cons, h]
        simp [recordRejection]
        omega }

/-- A candidate that failed validation. -/
theorem Counted.invalid :
    Counted (ids, r) .invalid (ids, { r with rejected := r.rejected + 1 }) where
  counter := ⟨.rejected, fun d ↦ by cases d <;> rfl⟩
  tally :=
    { candidates := rfl
      rows := ⟨[], (List.append_nil _).symm, rfl⟩
      superseded := Nat.le_refl _
      reclassifiedEvent := Nat.le_refl _
      supersedeWithoutExisting := Nat.le_refl _
      reasons := by
        simp [JobResult.reasons, RawCandidate.isInvalid]
        omega }

/-- The write gate counts the candidates it drops, and leaves the others to the adjudicator. -/
theorem countGate_steps (env : Env) (event : Event) (ids : List FactId) (r : JobResult)
    (raws : List RawCandidate) :
    ∃ dropped, (dropped ++ (admitted env event raws).map .valid).Perm raws ∧
      Steps Counted (ids, r) dropped (ids, raws.foldl (countGate env event) r) := by
  induction raws generalizing r with
  | nil => exact ⟨[], .refl _, .nil _⟩
  | cons raw raws ih =>
    obtain ⟨dropped, hperm, hsteps⟩ := ih (countGate env event r raw)
    cases raw with
    | invalid => exact ⟨.invalid :: dropped, hperm.cons _, .cons .invalid hsteps⟩
    | reject reason =>
      exact ⟨.reject reason :: dropped, hperm.cons _, .cons (.rejection reason rfl) hsteps⟩
    | valid candidate =>
      cases hgate : gateReason env event candidate with
      | some reason =>
        have hadmitted : admitted env event (.valid candidate :: raws) = admitted env event raws := by
          simp [admitted, hgate]
        have hcount : countGate env event r (.valid candidate) = recordRejection r reason := by
          simp only [countGate, hgate]
        rw [hcount] at hsteps
        refine ⟨.valid candidate :: dropped, ?_, ?_⟩
        · rw [hadmitted]
          exact hperm.cons _
        · rw [List.foldl_cons, hcount]
          exact .cons (.rejection reason rfl) hsteps
      | none =>
        have hadmitted : admitted env event (.valid candidate :: raws) =
            candidate :: admitted env event raws := by
          simp [admitted, hgate]
        have hcount : countGate env event r (.valid candidate) = r := by
          simp only [countGate, hgate]
        rw [hcount] at hsteps
        refine ⟨dropped, ?_, ?_⟩
        · rw [hadmitted, List.map_cons]
          exact List.perm_middle.trans (hperm.cons _)
        · rwa [List.foldl_cons, hcount]

/-- A written candidate adds its row, and is counted by its effect. -/
theorem Effect.counted {db : Db} {c : Candidate} {row : Fact} (e : Effect)
    (hf : db.facts.Fresh row) {raw : RawCandidate} (h : raw.isInvalid = false) :
    Counted (accounts (db, r)) raw (accounts (e.apply env event db row, e.count r c)) := by
  have hrows : (e.apply env event db row).facts.rows.map Fact.id =
      db.facts.rows.map Fact.id ++ [row.id] := by
    rw [Effect.apply, Table.rows_insert (Effect.fresh_onRow hf),
      Table.rows_modify (Effect.onFact_id env event e), List.map_append, List.map_map]
    simp [Function.comp_def]
  refine ⟨?_, ?_⟩
  · cases e with
    | hold => exact ⟨.quarantined, fun d ↦ by cases d <;> rfl⟩
    | accept =>
      refine ⟨.created, fun d ↦ ?_⟩
      simp only [accounts, Effect.count]
      split <;> cases d <;> rfl
    | replace | overflow => exact ⟨.created, fun d ↦ by cases d <;> rfl⟩
    | openConflict | joinConflict => exact ⟨.conflicts, fun d ↦ by cases d <;> rfl⟩
  · refine ⟨?_, ⟨[row.id], hrows, ?_⟩, ?_, ?_, ?_, ?_⟩
    case refine_6 =>
      rw [List.countP_cons, h]
      cases e with
      | accept => simp only [accounts, Effect.count]; split <;> rfl
      | _ => rfl
    all_goals
      cases e with
      | accept =>
        simp only [accounts, Effect.count]
        split <;> simp [JobResult.candidates, JobResult.written] <;> omega
      | _ => simp [accounts, Effect.count, JobResult.candidates, JobResult.written] <;> omega

/-- An admitted candidate is counted once. -/
theorem applyAdmitted_counted {state state' : Db × JobResult} {c : Candidate}
    (hu : state.1.UniqueActive) (h : applyAdmitted env event state c = .ok state') :
    Counted (accounts state) (.valid c) (accounts state') := by
  rcases applyAdmitted_cases h with ⟨reason, -, rfl⟩ | ⟨-, h⟩
  · exact .rejection reason rfl
  · obtain ⟨db', r'⟩ := state'
    cases applyCandidate_applied hu h with
    | counted =>
      exact
        { counter := ⟨.duplicates, fun d ↦ by cases d <;> rfl⟩
          tally :=
            { candidates := by simp [accounts, JobResult.candidates]; omega
              rows := ⟨[], (List.append_nil _).symm, rfl⟩
              superseded := Nat.le_refl _
              reclassifiedEvent := Nat.le_refl _
              supersedeWithoutExisting := Nat.le_refl _
              reasons := rfl } }
    | reinforced aliases f =>
      have hrows : (state.1.updateFact f.id (·.reinforcedBy event)).facts.rows.map Fact.id =
          state.1.facts.rows.map Fact.id := by
        rw [Db.updateFact, Table.rows_update fun g _ ↦ g.reinforcedBy_id event, List.map_map]
        refine List.map_congr_left fun g _ ↦ ?_
        simp only [Function.comp_apply]
        split <;> rfl
      exact
        { counter := ⟨.reinforced, fun d ↦ by cases d <;> rfl⟩
          tally :=
            { candidates := by simp [accounts, JobResult.candidates]; omega
              rows := ⟨[], hrows.trans (List.append_nil _).symm, rfl⟩
              superseded := Nat.le_refl _
              reclassifiedEvent := Nat.le_refl _
              supersedeWithoutExisting := Nat.le_refl _
              reasons := rfl } }
    | written aliases c' existing row e _ hadj => exact e.counted hadj.fresh rfl

end Steps

/-! ## Jobs -/

section Jobs

variable {env : Env} {extract : Extractor}

/-- The raw candidates the extractor returns for the events, one after the other. -/
def rawCandidates (env : Env) (extract : Extractor) : Db × JobResult → List Event → List RawCandidate
  | _, [] => []
  | state, event :: events =>
    (extract event (existingViews env state.1 event)).getD [] ++
      match processEvent env extract state event with
      | .ok state' => rawCandidates env extract state' events
      | .error _ => []

/-- The raw candidates of the run of a job. -/
def jobCandidates (env : Env) (extract : Extractor) (db : Db) (eventIds : List EventId)
    (only : Option (List EventId)) : List RawCandidate :=
  let events := jobEvents db eventIds only
  rawCandidates env extract (events.foldl (embedEvent env) db, {}) events

/-- The admitted candidates of an event are counted one by one. -/
theorem foldlM_applyAdmitted_steps {event : Event} {state state' : Db × JobResult}
    {candidates : List Candidate} (hu : state.1.UniqueActive)
    (h : candidates.foldlM (applyAdmitted env event) state = .ok state') :
    Steps Counted (accounts state) (candidates.map .valid) (accounts state') ∧
      state'.1.UniqueActive := by
  induction candidates generalizing state with
  | nil =>
    obtain rfl := foldlM_nil_eq_ok.mp h
    exact ⟨.nil _, hu⟩
  | cons c candidates ih =>
    obtain ⟨t, ht, h⟩ := foldlM_cons_eq_ok.mp h
    have hut : t.1.UniqueActive := by
      rcases applyAdmitted_cases ht with ⟨reason, -, rfl⟩ | ⟨-, ht⟩
      · exact hu
      · exact applyCandidate_unique hu ht
    obtain ⟨hsteps, hu'⟩ := ih hut h
    exact ⟨.cons (applyAdmitted_counted hu ht) hsteps, hu'⟩

/-- The candidates of an event are counted one by one: first those the write gate drops. -/
theorem processEvent_steps {event : Event} {state state' : Db × JobResult}
    (hu : state.1.UniqueActive) (h : processEvent env extract state event = .ok state') :
    (∃ raws, raws.Perm ((extract event (existingViews env state.1 event)).getD []) ∧
      Steps Counted (accounts state) raws (accounts state')) ∧ state'.1.UniqueActive := by
  obtain ⟨raws, s, events, hraws, hs, rfl⟩ := processEvent_eq_ok h
  obtain ⟨dropped, hperm, hgate⟩ := countGate_steps env event
    (state.1.facts.rows.map Fact.id) state.2 raws
  have hgated : ((state.1, raws.foldl (countGate env event) state.2) : Db × JobResult).1.UniqueActive :=
    hu
  obtain ⟨happlied, hus⟩ := foldlM_applyAdmitted_steps hgated hs
  exact ⟨⟨_, hraws ▸ hperm, hgate.append happlied⟩, hus⟩

/-- The candidates of a job are counted one by one. -/
theorem foldlM_processEvent_steps {events : List Event} {state state' : Db × JobResult}
    (hu : state.1.UniqueActive) (h : events.foldlM (processEvent env extract) state = .ok state') :
    ∃ raws, raws.Perm (rawCandidates env extract state events) ∧
      Steps Counted (accounts state) raws (accounts state') := by
  induction events generalizing state with
  | nil =>
    obtain rfl := foldlM_nil_eq_ok.mp h
    exact ⟨[], .refl _, .nil _⟩
  | cons event events ih =>
    obtain ⟨t, ht, h⟩ := foldlM_cons_eq_ok.mp h
    obtain ⟨⟨raws, hperm, hsteps⟩, hut⟩ := processEvent_steps hu ht
    obtain ⟨raws', hperm', hsteps'⟩ := ih hut h
    refine ⟨raws ++ raws', ?_, hsteps.append hsteps'⟩
    rw [rawCandidates, ht]
    exact hperm.append hperm'

/-- The rows of a table that another one does not have, when it has the same keys and some more. -/
theorem length_newRows {db db' : Db} {ids : List FactId}
    (h : db'.facts.rows.map Fact.id = db.facts.rows.map Fact.id ++ ids) :
    (db'.facts.rows.filter fun f ↦ (db.fact? f.id).isNone).length = ids.length := by
  have hnodup : (db.facts.rows.map Fact.id ++ ids).Nodup := h ▸ db'.facts.nodup
  have hmap : (db'.facts.rows.map Fact.id).filter (fun id ↦ (db.fact? id).isNone) =
      (db'.facts.rows.filter fun f ↦ (db.fact? f.id).isNone).map Fact.id := List.filter_map
  have hold : (db.facts.rows.map Fact.id).filter (fun id ↦ (db.fact? id).isNone) = [] := by
    refine List.filter_eq_nil_iff.mpr fun id hid ↦ ?_
    obtain ⟨f, hf, rfl⟩ := List.mem_map.mp hid
    simp [Db.fact?_of_mem hf]
  have hnew : ids.filter (fun id ↦ (db.fact? id).isNone) = ids := by
    refine List.filter_eq_self.mpr fun id hid ↦ Option.isNone_iff_eq_none.mpr ?_
    refine Option.eq_none_iff_forall_ne_some.mpr fun f hf ↦ ?_
    obtain ⟨hmem, rfl⟩ := Db.fact?_eq_some_iff.mp hf
    exact List.disjoint_of_nodup_append hnodup (List.mem_map_of_mem hmem) hid
  rw [← List.length_map Fact.id, ← hmap, h, List.filter_append, hold, hnew, List.nil_append]

/-- A job is a run of counted steps over its candidates. -/
theorem processJob_steps {db : Db} {eventIds : List EventId} {only : Option (List EventId)}
    {state' : Db × JobResult} (hu : db.UniqueActive)
    (h : processJob env extract db eventIds only = .ok state') :
    ∃ raws, raws.Perm (jobCandidates env extract db eventIds only) ∧
      Steps Counted (accounts (db, {})) raws (accounts state') := by
  obtain ⟨events, he⟩ := foldl_embedEvent_eq env db (jobEvents db eventIds only)
  have hu₁ : ((jobEvents db eventIds only).foldl (embedEvent env) db).UniqueActive := he ▸ hu
  obtain ⟨raws, hperm, hsteps⟩ := foldlM_processEvent_steps hu₁ h
  refine ⟨raws, hperm, ?_⟩
  have haccounts : accounts ((jobEvents db eventIds only).foldl (embedEvent env) db, {}) =
      accounts (db, {}) := by rw [he]; rfl
  exact haccounts ▸ hsteps

/-- The six counters of a job add up to the number of its candidates. -/
theorem processJob_candidates {db : Db} {eventIds : List EventId} {only : Option (List EventId)}
    {state' : Db × JobResult} (hu : db.UniqueActive)
    (h : processJob env extract db eventIds only = .ok state') :
    state'.2.candidates = (jobCandidates env extract db eventIds only).length := by
  obtain ⟨raws, hperm, hsteps⟩ := processJob_steps hu h
  have hcandidates := (Counted.tally_of_steps hsteps).candidates
  rw [hperm.length_eq] at hcandidates
  exact hcandidates.trans (Nat.zero_add _)

/-- The denominator of the write rejection rate is the number of candidates the jobs saw. -/
theorem candidatesTotal_eq {jobs : List ((Db × List EventId × Option (List EventId)) × JobResult)}
    (h : ∀ job ∈ jobs, job.1.1.UniqueActive ∧
      ∃ db', processJob env extract job.1.1 job.1.2.1 job.1.2.2 = .ok (db', job.2)) :
    candidatesTotal (jobs.map Prod.snd) = (jobs.map fun job ↦
      (jobCandidates env extract job.1.1 job.1.2.1 job.1.2.2).length).sum := by
  rw [candidatesTotal, List.map_map]
  refine congrArg List.sum (List.map_congr_left fun job hjob ↦ ?_)
  obtain ⟨hu, db', hdb'⟩ := h job hjob
  exact processJob_candidates hu hdb'

/-- **Every candidate is counted once.**  The raw candidates of a job can be lined up so that each
adds one to exactly one of the six counters, which therefore add up to their number; the rows that
are new are the ones created, in conflict or quarantined; what is counted besides is counted as
created; and what is rejected without a reason failed validation. -/
theorem candidates_counted (env : Env) (extract : Extractor) (db : Db) (eventIds : List EventId)
    (only : Option (List EventId)) (hu : db.UniqueActive) (db' : Db) (result : JobResult)
    (h : processJob env extract db eventIds only = .ok (db', result)) :
    (∃ raws, raws.Perm (jobCandidates env extract db eventIds only) ∧
      Steps (fun r _ r' ↦ ∃ c, JobResult.Increments r r' c) {} raws result) ∧
    result.candidates = (jobCandidates env extract db eventIds only).length ∧
    (db'.facts.rows.filter fun f ↦ (db.fact? f.id).isNone).length =
      result.created + result.conflicts + result.quarantined ∧
    result.superseded ≤ result.created ∧
    result.reclassifiedEvent ≤ result.created ∧
    result.supersedeWithoutExisting ≤ result.created ∧
    result.rejected = (rejectReasons.map result.rejectedWithReason).sum +
      (jobCandidates env extract db eventIds only).countP RawCandidate.isInvalid := by
  obtain ⟨raws, hperm, hsteps⟩ := processJob_steps hu h
  have htally := Counted.tally_of_steps hsteps
  obtain ⟨ids, hids, hwritten⟩ := htally.rows
  have hsuperseded := htally.superseded
  have hreclassified := htally.reclassifiedEvent
  have hwithout := htally.supersedeWithoutExisting
  have hreasons := htally.reasons
  simp only [accounts] at hwritten hsuperseded hreclassified hwithout hreasons
  have hzero : ({} : JobResult).written = 0 ∧ ({} : JobResult).reasons = 0 := ⟨rfl, rfl⟩
  refine ⟨⟨raws, hperm, hsteps.map (f := Prod.snd) fun _ _ _ h ↦ h.counter⟩,
    processJob_candidates hu h, ?_, ?_, ?_, ?_, ?_⟩
  · rw [length_newRows hids]
    rw [hzero.1, JobResult.written, Nat.zero_add] at hwritten
    exact hwritten.symm
  · omega
  · omega
  · omega
  · rw [hperm.countP_eq, hzero.2] at hreasons
    change _ = 0 + result.reasons + _ at hreasons
    rw [Nat.zero_add] at hreasons
    exact hreasons

end Jobs

namespace Sample

/-- An answer with a candidate, one that fails validation and one the provider rejects. -/
def mixed : Extractor := fun _ _ ↦
  some [.valid (create "city" "Lyon"), .invalid, .reject .systemNoise]

/-- One event is captured. -/
def oneEvent : Db := runOps .sample .empty [.capture (event 1 .trusted)]

end Sample

/-- One candidate creates a fact, one fails validation, and one is rejected by the provider. -/
theorem candidates_counted_mixed :
    ∃ db' result, processJob .sample Sample.mixed Sample.oneEvent [1] none = .ok (db', result) ∧
      result.candidates = 3 ∧
      (db'.facts.rows.filter fun f ↦ (Sample.oneEvent.fact? f.id).isNone).length =
        result.created + result.conflicts + result.quarantined ∧
      result.rejected = (rejectReasons.map result.rejectedWithReason).sum + 1 := by
  have hok : (processJob .sample Sample.mixed Sample.oneEvent [1] none).toOption.isSome := by
    decide +kernel
  obtain ⟨⟨db', result⟩, h⟩ := exists_eq_ok hok
  have hu : Sample.oneEvent.UniqueActive := by decide +kernel
  obtain ⟨-, hcandidates, hrows, -, -, -, hrejected⟩ :=
    candidates_counted .sample Sample.mixed Sample.oneEvent [1] none hu db' result h
  have hlength : (jobCandidates .sample Sample.mixed Sample.oneEvent [1] none).length = 3 := by
    decide +kernel
  have hinvalid : (jobCandidates .sample Sample.mixed Sample.oneEvent [1] none).countP
      RawCandidate.isInvalid = 1 := by
    decide +kernel
  exact ⟨db', result, h, hcandidates.trans hlength, hrows, hinvalid ▸ hrejected⟩

end Haki
