import Haki.Consolidator.Learned
import Haki.Tenancy.Projects

/-!
# Requests stay in their project

`Request.Of owner p` says that a request is one of project `p`.  Such a request
keeps the memory owned (`Request.exec_owned`) and changes rows of `p` only
(`Request.exec_confined`): the adjudicator and the erasures reach rows by
primary key, by source event and through the members of conflict sets, and none
of these lead out of the project.
-/

namespace Haki

open Data Control

variable {owner : EventId → String} {env : Env} {p : String}

/-! ## Applying a candidate -/

section

variable {db db' : Db} {c c' : Candidate} {embedding : Embedding} {event : Event}
  {result result' : JobResult} {existing : Option Fact} {row f : Fact} {e : Effect}

theorem Adjudicated.row_owned (h : Adjudicated env db event c c' existing row e)
    (hevent : owner event.id = event.scope.projectId) : row.Owned owner := by
  refine ⟨?_, fun i hi ↦ ?_⟩
  · rw [h.id, h.scope]
    exact hevent
  · rw [h.sourceEventIds] at hi
    rw [List.mem_singleton.mp hi, h.scope]
    exact hevent

/-- The open set a contradiction is about, and its members, are of the event's project. -/
theorem openConflictSet_owned (ho : db.Owned owner) {id : FactId} {s : ConflictSet}
    (h : db.openConflictSet event.scope id = some s) :
    s ∈ db.conflictSets ∧ owner s.id.event = event.scope.projectId ∧
      ∀ i ∈ s.factIds, owner i.event = event.scope.projectId := by
  obtain ⟨hs, hscope, -, -⟩ := Db.openConflictSet_some h
  have howned := ho.conflictSets s hs
  rw [← hscope]
  exact ⟨hs, howned.born, howned.members⟩

/-- An effect leaves the facts of other projects as they are. -/
theorem Adjudicated.onFact_fixed (h : Adjudicated env db event c c' existing row e)
    (ho : db.Owned owner) (hf : f ∈ db.facts)
    (hproject : f.scope.projectId ≠ event.scope.projectId) : e.onFact env event f = f := by
  have holder : ∀ old ∈ existing, f.id ≠ old.id := by
    intro old hold hid
    obtain ⟨hmem, hscope, -⟩ := h.active old hold
    obtain rfl := Db.eq_of_id_eq hf hmem hid
    exact hproject (congrArg Scope.projectId hscope)
  rcases e.onFact_cases f with hsame | ⟨old, he, hid, -⟩ | ⟨old, conflict, other, he, hid, -⟩
  · exact hsame
  · subst he
    have hexisting : existing = some old := h.guard.2.1
    exact absurd hid (holder old hexisting)
  · subst he
    obtain ⟨old', hcontra, rfl, hfull, otherId, hfind, rfl, -⟩ := h.guard
    rcases hid with hid | ⟨o, ho', hid⟩
    · exact absurd hid (holder old hcontra.matched)
    · obtain ⟨-, -, hmembers⟩ := openConflictSet_owned ho hfull.openSet
      have hother := hmembers otherId (List.mem_of_find?_eq_some hfind)
      exact absurd (ho.projectId_of_id hother hf (hid.trans (Db.id_of_fact? ho'))) hproject

theorem Adjudicated.owned (h : Adjudicated env db event c c' existing row e) (ho : db.Owned owner)
    (hevent : owner event.id = event.scope.projectId) : (e.apply env event db row).Owned owner := by
  have hrow : owner row.id.event = event.scope.projectId := by
    rw [h.id]
    exact hevent
  refine ⟨ho.events, fun f' hf' ↦ ?_, fun s' hs' ↦ ?_, ho.contextTraces⟩
  · rcases h.mem_apply hf' with ⟨f, hf, -, -, hcontent⟩ | ⟨-, -, hcontent⟩
    · exact (ho.facts f hf).of_content hcontent.symm
    · exact (h.row_owned hevent).of_content hcontent
  · have new (ids : List FactId) (kind : ConflictKind)
        (hids : ∀ id ∈ ids, owner id.event = event.scope.projectId) :
        (newConflictSet env db event ids kind).Owned owner := ⟨hevent, hids⟩
    rcases h.mem_onSets hs' with ⟨hs', -⟩ | ⟨rfl, rfl⟩ | ⟨old, rfl, rfl⟩ | ⟨s, hs, rfl, rfl⟩ |
      ⟨s, hs, old, other, rfl, rfl⟩
    · exact ho.conflictSets s' hs'
    · exact new _ _ fun id hid ↦ List.mem_singleton.mp hid ▸ hrow
    · refine new _ _ fun id hid ↦ ?_
      obtain ⟨old', hcontra, rfl, -⟩ := h.guard
      obtain ⟨hold, hscope, -⟩ := h.active old hcontra.matched
      rcases List.mem_cons.mp hid with rfl | hid
      · rw [(ho.facts old hold).born, hscope]
      · exact List.mem_singleton.mp hid ▸ hrow
    · obtain ⟨old, -, hopen, -⟩ := h.guard
      obtain ⟨-, hscope, -, -⟩ := Db.openConflictSet_some hopen
      exact (ho.conflictSets s hs).extend (hscope ▸ hrow)
    · obtain ⟨old', -, -, hfull, -⟩ := h.guard
      obtain ⟨-, hscope, -, -⟩ := Db.openConflictSet_some hfull.openSet
      have hid : owner row.id.event = s.scope.projectId := hscope ▸ hrow
      obtain ⟨hborn, hmembers⟩ := (ho.conflictSets s hs).extend hid
      exact ⟨hborn, hmembers⟩

theorem Adjudicated.confined (h : Adjudicated env db event c c' existing row e)
    (ho : db.Owned owner) (hp : event.scope.projectId = p) :
    db.Confined p (e.apply env event db row) := by
  intro keep hkeep
  have hfacts : ((db.facts.modify (e.onFact env event)).insert (e.onRow env row)).filter
      (visible keep) = db.facts.filter (visible keep) := by
    have hrow : (e.onRow env row).scope = event.scope :=
      (Fact.scope_of_content (e.onRow_content row)).trans h.scope
    have hhidden : visible keep (e.onRow env row) = false := by
      show keep (e.onRow env row).scope.projectId = false
      rw [hrow, hp, hkeep]
    rw [Table.filter_insert_of_false hhidden]
    refine Table.filter_modify_of_fixed (Effect.onFact_id env event e) fun f hf ↦ ⟨?_, fun hv ↦ ?_⟩
    · exact congrArg (fun s : Scope ↦ keep s.projectId)
        (Fact.scope_of_content (e.onFact_content f))
    · refine h.onFact_fixed ho hf fun hproject ↦ ?_
      have hv : keep f.scope.projectId = true := hv
      rw [hproject, hp, hkeep] at hv
      cases hv
  have hsets : (e.onSets env event db row.id).filter (visible keep) =
      db.conflictSets.filter (visible keep) := by
    have new (ids : List FactId) (kind : ConflictKind) :
        (db.conflictSets.insert (newConflictSet env db event ids kind)).filter (visible keep) =
          db.conflictSets.filter (visible keep) :=
      Table.filter_insert_of_false (a := newConflictSet env db event ids kind)
        ((congrArg keep hp).trans hkeep)
    have known (s : ConflictSet) (g : ConflictSet → ConflictSet)
        (hg : ∀ s, (g s).id = s.id ∧ (g s).scope = s.scope) (id : FactId)
        (hopen : db.openConflictSet event.scope id = some s) :
        (db.conflictSets.update s.id g).filter (visible keep) =
          db.conflictSets.filter (visible keep) := by
      obtain ⟨-, hid, -⟩ := openConflictSet_owned ho hopen
      exact congrArg Db.conflictSets
        (Db.Confined.updateConflictSet ho hg (hid.trans hp) keep hkeep)
    cases e with
    | hold => exact new _ _
    | openConflict old => exact new _ _
    | joinConflict s =>
      obtain ⟨old, -, hopen, -⟩ := h.guard
      exact known s _ (fun _ ↦ ⟨rfl, rfl⟩) _ hopen
    | overflow old s other =>
      obtain ⟨old', -, -, hfull, -⟩ := h.guard
      exact known s _ (fun _ ↦ ⟨rfl, rfl⟩) _ hfull.openSet
    | accept | replace => rfl
  rw [Db.only, Db.only, Effect.apply]
  dsimp only
  rw [hfacts, hsets]

end

/-! ## Jobs -/

/-- A step that stays in the project `p`: the index and the ownership hold after it, and no row of
another project changed. -/
structure Db.Stays (owner : EventId → String) (p : String) (db db' : Db) : Prop where
  unique : db'.UniqueActive
  owned : db'.Owned owner
  confined : db.Confined p db'

section

variable {db db' db'' : Db} {event : Event} {extract : Extractor}

theorem Db.Stays.refl (hu : db.UniqueActive) (ho : db.Owned owner) : db.Stays owner p db :=
  ⟨hu, ho, .refl db⟩

theorem Db.Stays.trans (h : db.Stays owner p db') (h' : db'.Stays owner p db'') :
    db.Stays owner p db'' :=
  ⟨h'.unique, h'.owned, h.confined.trans h'.confined⟩

/-- A run of steps each of which stays in the project. -/
theorem Db.Stays.foldlM {α : Type} {f : Db → α → Except LedgerError Db} {xs : List α}
    (hstep : ∀ db x db', x ∈ xs → db.UniqueActive → db.Owned owner → f db x = .ok db' →
      db.Stays owner p db')
    (hu : db.UniqueActive) (ho : db.Owned owner) (h : xs.foldlM f db = .ok db') :
    db.Stays owner p db' :=
  foldlM_invariant (I := db.Stays owner p) (C := fun _ x ↦ x ∈ xs)
    (fun _ _ _ hI hx h ↦ hI.trans (hstep _ _ _ hx hI.unique hI.owned h)) (.refl hu ho)
    (foldMeets_of_forall_mem (fun _ hx ↦ hx) db) h

theorem Db.Confined.withAliases (h : db.Confined p db') {aliases : Table PredicateAlias}
    (haliases : ∀ keep : String → Bool, keep p = false →
      aliases.filter (visible keep) = db.predicateAliases.filter (visible keep)) :
    db.Confined p { db' with predicateAliases := aliases } := by
  intro keep hkeep
  show ({ db'.only keep with predicateAliases := aliases.filter (visible keep) } : Db) = db.only keep
  rw [h keep hkeep, haliases keep hkeep]
  rfl

theorem applyCandidate_stays {c : Candidate} {embedding : Embedding} {result result' : JobResult}
    (hu : db.UniqueActive) (ho : db.Owned owner) (hp : event.scope.projectId = p)
    (hevent : owner event.id = p)
    (h : applyCandidate env db c embedding event result = .ok (db', result')) :
    db.Stays owner p db' := by
  have haliases : ∀ keep : String → Bool, keep p = false →
      db'.predicateAliases.filter (visible keep) = db.predicateAliases.filter (visible keep) := by
    intro keep hkeep
    rw [applyCandidate_predicateAliases hu h]
    refine matchCandidate_learns (P := fun db₁ ↦ db₁.predicateAliases.filter (visible keep) =
      db.predicateAliases.filter (visible keep)) rfl fun db₁ predicate canonical hdb ↦ ?_
    exact (congrArg Db.predicateAliases
      (Db.Confined.learnAlias db₁ hp predicate canonical keep hkeep)).trans hdb
  have hu' := applyCandidate_unique hu h
  cases applyCandidate_applied hu h with
  | counted aliases => exact ⟨hu', ho.withAliases aliases, (Db.Confined.refl db).withAliases haliases⟩
  | reinforced aliases f _ hdup =>
    have hborn : owner f.id.event = p := by
      rw [(ho.facts f hdup.mem).born, hdup.scope, hp]
    refine ⟨hu', Db.Owned.withAliases ?_ aliases, Db.Confined.withAliases ?_ haliases⟩
    · refine ho.updateFact (·.reinforcedBy_id event) fun f' hf' hid ↦ ⟨(ho.facts f' hf').born, ?_⟩
      intro e he
      rcases List.mem_append.mp he with he | he
      · exact (ho.facts f' hf').sources e he
      · rw [List.mem_singleton.mp he, hevent]
        exact (ho.projectId_of_id hborn hf' hid).symm
    · exact .updateFact ho (fun _ ↦ ⟨rfl, rfl⟩) hborn
  | written aliases c' existing row e _ hadj =>
    exact ⟨hu', (hadj.owned ho (hevent.trans hp.symm)).withAliases aliases,
      (hadj.confined ho hp).withAliases haliases⟩

theorem updateEvent_stays {id : EventId} {k : Event → Event} (hu : db.UniqueActive)
    (ho : db.Owned owner) (hk : ∀ e, (k e).id = e.id ∧ (k e).scope = e.scope) (hid : owner id = p) :
    db.Stays owner p { db with events := db.events.update id k } :=
  ⟨hu, ho.updateEvent hk, .updateEvent ho hk hid⟩

theorem applyAdmitted_stays {state state' : Db × JobResult} {c : Candidate}
    (hu : state.1.UniqueActive) (ho : state.1.Owned owner) (hp : event.scope.projectId = p)
    (hevent : owner event.id = p) (h : applyAdmitted env event state c = .ok state') :
    state.1.Stays owner p state'.1 := by
  rcases applyAdmitted_cases h with ⟨reason, -, rfl⟩ | ⟨-, h⟩
  · exact .refl hu ho
  · exact applyCandidate_stays hu ho hp hevent h

/-- The candidates of an event stay in its project. -/
theorem applyAll_stays {result : JobResult} {state' : Db × JobResult} {candidates : List Candidate}
    (hu : db.UniqueActive) (ho : db.Owned owner) (hp : event.scope.projectId = p)
    (hevent : owner event.id = p)
    (h : candidates.foldlM (applyAdmitted env event) (db, result) = .ok state') :
    db.Stays owner p state'.1 :=
  foldlM_preserves (I := fun s : Db × JobResult ↦ db.Stays owner p s.1)
    (fun _ _ _ hI h ↦ hI.trans (applyAdmitted_stays hI.unique hI.owned hp hevent h))
    (.refl hu ho) h

theorem processEvent_stays {state state' : Db × JobResult} (hu : state.1.UniqueActive)
    (ho : state.1.Owned owner) (hp : event.scope.projectId = p) (hevent : owner event.id = p)
    (h : processEvent env extract state event = .ok state') :
    state.1.Stays owner p state'.1 := by
  obtain ⟨raws, -, h⟩ := bind_eq_ok.mp h
  dsimp only at h
  split at h
  · cases h
    exact .refl hu ho
  · obtain ⟨s, hs, h⟩ := bind_eq_ok.mp h
    cases h
    have hrun : state.1.Stays owner p s.1 := applyAll_stays hu ho hp hevent hs
    refine hrun.trans ?_
    show s.1.Stays owner p (indexTouchedFacts env s.1 event)
    rw [indexTouchedFacts]
    dsimp only
    split
    · exact .refl hrun.unique hrun.owned
    · exact updateEvent_stays hrun.unique hrun.owned (fun _ ↦ ⟨rfl, rfl⟩) hevent

theorem embedEvents_stays {events : List Event} (hu : db.UniqueActive) (ho : db.Owned owner)
    (hevents : ∀ e ∈ events, owner e.id = p) :
    db.Stays owner p (events.foldl (embedEvent env) db) := by
  induction events generalizing db with
  | nil => exact .refl hu ho
  | cons event events ih =>
    obtain ⟨hevent, hevents⟩ := List.forall_mem_cons.mp hevents
    have hstep : db.Stays owner p (embedEvent env db event) := by
      rw [embedEvent]
      split
      · exact .refl hu ho
      · exact updateEvent_stays hu ho (fun _ ↦ ⟨rfl, rfl⟩) hevent
    exact hstep.trans (ih hstep.unique hstep.owned hevents)

/-- An event of a job is stored, and one of those the job names. -/
theorem mem_jobEvents_id {eventIds : List EventId} {only : Option (List EventId)} {e : Event}
    (h : e ∈ jobEvents db eventIds only) : e.id ∈ eventIds := by
  rw [jobEvents, List.mem_filter, List.mem_insertionSort, List.mem_filter] at h
  exact of_decide_eq_true h.1.2

/-- A job on events of a project stays in it. -/
theorem processJob_stays {eventIds : List EventId} {only : Option (List EventId)}
    {state' : Db × JobResult} (hu : db.UniqueActive) (ho : db.Owned owner)
    (hids : ∀ id ∈ eventIds, owner id = p)
    (h : processJob env extract db eventIds only = .ok state') : db.Stays owner p state'.1 := by
  have hevents : ∀ e ∈ jobEvents db eventIds only, owner e.id = p ∧ e.scope.projectId = p := by
    intro e he
    have hid := hids e.id (mem_jobEvents_id he)
    exact ⟨hid, (ho.events e (mem_jobEvents he)).symm.trans hid⟩
  refine foldlM_invariant (I := fun s : Db × JobResult ↦ db.Stays owner p s.1)
    (C := fun _ e ↦ owner e.id = p ∧ e.scope.projectId = p) (fun s e s' hI he hs ↦ ?_)
    (embedEvents_stays hu ho fun e he ↦ (hevents e he).1) (foldMeets_of_forall_mem hevents _) h
  exact hI.trans (processEvent_stays hI.unique hI.owned he.2 he.1 hs)

end

/-! ## The other operations on the ledger -/

section

variable {now : Timestamp} {db db' : Db}

theorem updateFact_stays {id : FactId} {k : Fact → Fact} (ho : db.Owned owner)
    (hk : ∀ f, (k f).id = f.id ∧ (k f).scope = f.scope ∧ (k f).sourceEventIds = f.sourceEventIds)
    (hid : owner id.event = p) (hu : (db.updateFact id k).UniqueActive) :
    db.Stays owner p (db.updateFact id k) :=
  ⟨hu, ho.updateFact_same hk, .updateFact ho (fun f ↦ ⟨(hk f).1, (hk f).2.1⟩) hid⟩

theorem transitionFactStatus_stays {id : FactId} {target : FactStatus} (ho : db.Owned owner)
    (hid : owner id.event = p) (h : transitionFactStatus now db id target = .ok db') :
    db.Stays owner p db' := by
  obtain ⟨-, -, -, rfl, hu⟩ := transitionFactStatus_eq_ok h
  exact updateFact_stays ho (fun _ ↦ ⟨rfl, rfl, rfl⟩) hid hu

theorem resolveMember_stays {keep id : FactId} (hu : db.UniqueActive) (ho : db.Owned owner)
    (hid : owner id.event = p) (h : resolveMember now keep db id = .ok db') :
    db.Stays owner p db' := by
  have hu' := resolveMember_unique hu h
  rw [resolveMember] at h
  split at h
  · obtain ⟨-, -, ⟨-, rfl⟩ | ⟨-, -, -, rfl, -⟩⟩ := keepMember_eq_ok h
    · exact .refl hu ho
    · exact updateFact_stays ho (fun _ ↦ ⟨rfl, rfl, rfl⟩) hid hu'
  · obtain ⟨-, -, ⟨-, rfl⟩ | ⟨-, rfl, -⟩⟩ := loseMember_eq_ok h
    · exact .refl hu ho
    · exact updateFact_stays ho (fun _ ↦ ⟨rfl, rfl, rfl⟩) hid hu'

/-- A conflict set is resolved by its own project. -/
theorem resolveConflict_projectId {id : ConflictId} {keep : FactId} {conflict : ConflictSet}
    (h : resolveConflict now db p id keep = .ok db') (hc : db.conflictSet? id = some conflict) :
    conflict.scope.projectId = p := by
  rw [resolveConflict, hc] at h
  dsimp only at h
  split at h
  · cases h
  · next hproject => exact not_not.mp hproject

theorem resolveConflict_stays {id : ConflictId} {keep : FactId} (hu : db.UniqueActive)
    (ho : db.Owned owner) (h : resolveConflict now db p id keep = .ok db') :
    db.Stays owner p db' := by
  obtain ⟨conflict, db₁, hc, -, -, hwalk, rfl⟩ := resolveConflict_eq_ok h
  have hproject := resolveConflict_projectId h hc
  obtain ⟨hmem, rfl⟩ := Table.get?_eq_some_iff.mp hc
  have howned := ho.conflictSets conflict hmem
  have hstays : db.Stays owner p db₁ :=
    .foldlM (fun _ _ _ hid hu ho h ↦
      resolveMember_stays hu ho ((howned.members _ hid).trans hproject) h) hu ho hwalk
  refine hstays.trans ⟨hstays.unique, hstays.owned.updateConflictSet fun _ ↦ ⟨rfl, rfl, rfl⟩, ?_⟩
  exact .updateConflictSet hstays.owned (fun _ ↦ ⟨rfl, rfl⟩) (howned.born.trans hproject)

/-- A fact a project may address is one of its own. -/
theorem getProjectFact_owner {id : FactId} {f : Fact} (ho : db.Owned owner)
    (h : getProjectFact db p id = .ok f) : f.id = id ∧ owner id.event = p := by
  obtain ⟨hf, hproject⟩ := getProjectFact_eq_ok h
  have hid := Db.id_of_fact? hf
  exact ⟨hid, hid ▸ (ho.facts f (Db.mem_of_fact? hf)).born.trans hproject⟩

theorem forgetFact_stays {id : FactId} {mode : ForgetMode} (hu : db.UniqueActive)
    (ho : db.Owned owner) (h : forgetFact now db p id mode = .ok db') : db.Stays owner p db' := by
  obtain ⟨f, hf, h⟩ := bind_eq_ok.mp h
  obtain ⟨-, hid⟩ := getProjectFact_owner ho hf
  split at h
  · cases h
    exact .refl hu ho
  · obtain ⟨db₁, h₁, h⟩ := bind_eq_ok.mp h
    have hstays := transitionFactStatus_stays ho hid h₁
    cases h
    split
    · refine hstays.trans (updateFact_stays hstays.owned (fun _ ↦ ⟨rfl, rfl, rfl⟩) hid ?_)
      exact Db.UniqueActive.update_same hstays.unique fun _ ↦ ⟨rfl, rfl, rfl, rfl, rfl, rfl⟩
    · exact hstays

theorem submitFeedback_stays {id : FactId} {rating : Rating} (hu : db.UniqueActive)
    (ho : db.Owned owner) (h : submitFeedback now db p id rating = .ok db') :
    db.Stays owner p db' := by
  obtain ⟨f, hf, h⟩ := bind_eq_ok.mp h
  obtain ⟨hfid, hid⟩ := getProjectFact_owner ho hf
  split at h
  · exact transitionFactStatus_stays ho (hfid ▸ hid) h
  · cases h
    exact .refl hu ho

theorem disableSubject_stays {scope : Scope} (hu : db.UniqueActive) (ho : db.Owned owner)
    (h : disableSubject now db scope = .ok db') : db.Stays owner scope.projectId db' := by
  refine .foldlM (fun db₁ id db₂ hid _ ho₁ h ↦ transitionFactStatus_stays ho₁ ?_ h) hu ho h
  obtain ⟨f, hf, rfl⟩ := List.mem_map.mp hid
  obtain ⟨hf, hc⟩ := List.mem_filter.mp hf
  obtain ⟨hscope, -⟩ := of_decide_eq_true hc
  rw [(ho.facts f hf).born, hscope]

/-- Rows outside a subject are all there is to see for another project. -/
theorem filter_scope_hidden {α : Type} [Tenanted α] {scope : Scope} {keep : String → Bool}
    (hkeep : keep scope.projectId = false) {f : α → Scope}
    (hf : ∀ a, Tenanted.projectId a = (f a).projectId) (l : List α) :
    (l.filter fun a ↦ f a ≠ scope).filter (visible keep) = l.filter (visible keep) := by
  rw [filter_comm]
  refine List.filter_eq_self.mpr fun a ha ↦ decide_eq_true fun hscope ↦ ?_
  have hvisible := (List.mem_filter.mp ha).2
  rw [visible, hf, hscope, hkeep] at hvisible
  cases hvisible

theorem deleteSubject_stays (scope : Scope) (hu : db.UniqueActive) (ho : db.Owned owner) :
    db.Stays owner scope.projectId (deleteSubject db scope) := by
  refine ⟨hu.filter _, ⟨?_, ?_, ?_, ?_⟩, fun keep hkeep ↦ ?_⟩
  · exact fun e he ↦ ho.events e (Table.mem_filter.mp he).1
  · exact fun f hf ↦ ho.facts f (Table.mem_filter.mp hf).1
  · exact fun s hs ↦ ho.conflictSets s (Table.mem_filter.mp hs).1
  · exact fun t ht ↦ ho.contextTraces t (List.mem_filter.mp ht).1
  · have hidden {α κ : Type} [Keyed α κ] [Tenanted α] {f : α → Scope}
        (hf : ∀ a, Tenanted.projectId a = (f a).projectId) (t : Table α) :
        (t.filter fun a ↦ f a ≠ scope).filter (visible keep) = t.filter (visible keep) :=
      Table.ext (filter_scope_hidden hkeep hf t.rows)
    rw [Db.only, Db.only, deleteSubject]
    dsimp only
    rw [hidden fun _ ↦ rfl, hidden fun _ ↦ rfl, hidden fun _ ↦ rfl, hidden fun _ ↦ rfl,
      filter_scope_hidden hkeep fun _ ↦ rfl]

end

end Haki
