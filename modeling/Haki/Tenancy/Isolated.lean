import Haki.Tenancy.Local

/-!
# Requests, seen by some of the projects

How a request looks to some of the projects: one of theirs does to their part
of the memory what it does to the memory, or fails with the same error
(`Request.exec_only`).  Any other is not seen (`Request.exec_stays`).
-/

namespace Haki

open Data Control

variable {owner : EventId → String} {env : Env} {keep : String → Bool} {p : String}

/-! ## Operations on the ledger -/

section

variable {now : Timestamp} {db db' : Db}

theorem updateFact_only {id : FactId} {k : Fact → Fact}
    (hk : ∀ f, (k f).id = f.id ∧ (k f).scope = f.scope) :
    (db.updateFact id k).only keep = (db.only keep).updateFact id k := by
  have hfacts : (db.facts.update id k).filter (visible keep) =
      (db.facts.filter (visible keep)).update id k :=
    Table.visible_update (fun f ↦ (hk f).1) (fun f ↦ congrArg Scope.projectId (hk f).2) db.facts
  rw [Db.updateFact, Db.updateFact, Db.only, Db.only]
  dsimp only
  rw [hfacts]

theorem updateConflictSet_only {id : ConflictId} {k : ConflictSet → ConflictSet}
    (hk : ∀ s, (k s).id = s.id ∧ (k s).scope = s.scope) :
    (db.updateConflictSet id k).only keep = (db.only keep).updateConflictSet id k := by
  have hsets : (db.conflictSets.update id k).filter (visible keep) =
      (db.conflictSets.filter (visible keep)).update id k :=
    Table.visible_update (fun s ↦ (hk s).1) (fun s ↦ congrArg Scope.projectId (hk s).2)
      db.conflictSets
  rw [Db.updateConflictSet, Db.updateConflictSet, Db.only, Db.only]
  dsimp only
  rw [hsets]

theorem getFact_only (ho : db.Owned owner) {id : FactId} (hid : keep (owner id.event) = true) :
    getFact (db.only keep) id = getFact db id := by
  rw [getFact, getFact, fact?_only ho hid]

/-- A fact of another project is not found, whether it is there or not. -/
theorem getProjectFact_only (hk : keep p = true) (id : FactId) :
    getProjectFact (db.only keep) p id = getProjectFact db p id := by
  have hfact : (db.only keep).fact? id = (db.fact? id).filter (visible keep) :=
    Table.get?_filter_eq (visible keep) db.facts id
  rw [getProjectFact, getProjectFact, getFact, getFact, hfact]
  cases db.fact? id with
  | none => rfl
  | some f =>
    by_cases hproject : f.scope.projectId = p
    · rw [Option.filter_some_pos (visible_of_eq hk hproject)]
    · by_cases hv : visible keep f = true
      · rw [Option.filter_some_pos hv]
      · rw [Option.filter_some_neg (eq_false_of_ne_true hv)]
        simp only [error_bind, ok_bind, if_neg hproject]
        rfl

theorem transitionFactStatus_only (hu : db.UniqueActive) (ho : db.Owned owner) {id : FactId}
    (hid : keep (owner id.event) = true) (target : FactStatus) :
    (transitionFactStatus now db id target).map (Db.only keep) =
      transitionFactStatus now (db.only keep) id target := by
  rw [transitionFactStatus, transitionFactStatus, getFact_only ho hid]
  cases getFact db id with
  | error _ => rfl
  | ok f =>
    simp only [ok_bind]
    split
    · have hconfined : db.Confined (owner id.event) (db.updateFact id (·.moveTo target now)) :=
        .updateFact ho (fun _ ↦ ⟨rfl, rfl⟩) rfl
      rw [← flush_only hu hid hconfined, updateFact_only]
      exact fun _ ↦ ⟨rfl, rfl⟩
    · rfl

theorem keepMember_only (hu : db.UniqueActive) (ho : db.Owned owner) {id : FactId}
    (hid : keep (owner id.event) = true) :
    (keepMember now db id).map (Db.only keep) = keepMember now (db.only keep) id := by
  rw [keepMember, keepMember, getFact_only ho hid]
  cases getFact db id with
  | error _ => rfl
  | ok f =>
    simp only [ok_bind]
    split
    · exact transitionFactStatus_only hu ho hid .active
    · rfl
    · rfl
    · exact transitionFactStatus_only hu ho hid .active

theorem loseMember_only (hu : db.UniqueActive) (ho : db.Owned owner) {kept id : FactId}
    (hid : keep (owner id.event) = true) :
    (loseMember now db kept id).map (Db.only keep) = loseMember now (db.only keep) kept id := by
  rw [loseMember, loseMember, getFact_only ho hid]
  cases getFact db id with
  | error _ => rfl
  | ok f =>
    simp only [ok_bind]
    split
    · rfl
    · rfl
    · rw [← transitionFactStatus_only hu ho hid .superseded]
      cases transitionFactStatus now db id .superseded with
      | error _ => rfl
      | ok db₁ =>
        refine congrArg Except.ok (updateFact_only ?_)
        exact fun _ ↦ ⟨rfl, rfl⟩

theorem resolveMember_only (hu : db.UniqueActive) (ho : db.Owned owner) {kept id : FactId}
    (hid : keep (owner id.event) = true) :
    (resolveMember now kept db id).map (Db.only keep) =
      resolveMember now kept (db.only keep) id := by
  rw [resolveMember, resolveMember]
  split
  · exact keepMember_only hu ho hid
  · exact loseMember_only hu ho hid

/-- A run of steps of a project, seen by the projects. -/
theorem foldlM_only {α : Type} {f : Db → α → Except LedgerError Db} {xs : List α}
    (honly : ∀ db, ∀ x ∈ xs, db.UniqueActive → db.Owned owner →
      (f db x).map (Db.only keep) = f (db.only keep) x)
    (hstays : ∀ db, ∀ x ∈ xs, ∀ db', db.UniqueActive → db.Owned owner → f db x = .ok db' →
      db.Stays owner p db')
    (hu : db.UniqueActive) (ho : db.Owned owner) :
    (xs.foldlM f db).map (Db.only keep) = xs.foldlM f (db.only keep) :=
  foldlM_map_of (I := fun db ↦ db.UniqueActive ∧ db.Owned owner)
    (fun db x hx hI ↦ honly db x hx hI.1 hI.2)
    (fun db x hx db' hI h ↦
      have hstays := hstays db x hx db' hI.1 hI.2 h
      ⟨hstays.unique, hstays.owned⟩) ⟨hu, ho⟩

theorem resolveConflict_only (hu : db.UniqueActive) (ho : db.Owned owner) (hk : keep p = true)
    (id : ConflictId) (kept : FactId) :
    (resolveConflict now db p id kept).map (Db.only keep) =
      resolveConflict now (db.only keep) p id kept := by
  have hset : (db.only keep).conflictSet? id = (db.conflictSet? id).filter (visible keep) :=
    Table.get?_filter_eq (visible keep) db.conflictSets id
  rw [resolveConflict, resolveConflict, hset]
  cases hc : db.conflictSet? id with
  | none => rfl
  | some conflict =>
    by_cases hproject : conflict.scope.projectId = p
    · rw [Option.filter_some_pos (visible_of_eq hk hproject)]
      dsimp only
      split
      · rfl
      · split
        · rfl
        · split
          · rfl
          · have hmembers := (ho.conflictSets conflict (Table.mem_of_get? hc)).members
            have hwalk : (conflict.factIds.foldlM (resolveMember now kept) db).map (Db.only keep) =
                conflict.factIds.foldlM (resolveMember now kept) (db.only keep) :=
              foldlM_only
                (fun _ i hi hu ho ↦ resolveMember_only hu ho
                  ((congrArg keep ((hmembers i hi).trans hproject)).trans hk))
                (fun _ i hi _ hu ho h ↦ resolveMember_stays hu ho
                  ((hmembers i hi).trans hproject) h) hu ho
            rw [← hwalk]
            cases conflict.factIds.foldlM (resolveMember now kept) db with
            | error _ => rfl
            | ok db₁ =>
              refine congrArg Except.ok (updateConflictSet_only ?_)
              exact fun _ ↦ ⟨rfl, rfl⟩
    · by_cases hv : visible keep conflict = true
      · rw [Option.filter_some_pos hv]
        simp only [if_pos hproject]
        rfl
      · rw [Option.filter_some_neg (eq_false_of_ne_true hv)]
        simp only [if_pos hproject]
        rfl

theorem forgetFact_only (hu : db.UniqueActive) (ho : db.Owned owner) (hk : keep p = true)
    (id : FactId) (mode : ForgetMode) :
    (forgetFact now db p id mode).map (Db.only keep) = forgetFact now (db.only keep) p id mode := by
  rw [forgetFact, forgetFact, getProjectFact_only hk]
  cases hf : getProjectFact db p id with
  | error _ => rfl
  | ok f =>
    obtain ⟨-, hid⟩ := getProjectFact_owner ho hf
    simp only [ok_bind]
    split
    · rfl
    · rw [← transitionFactStatus_only hu ho ((congrArg keep hid).trans hk)]
      cases transitionFactStatus now db id mode.target with
      | error _ => rfl
      | ok db₁ =>
        refine congrArg Except.ok ?_
        split
        · refine updateFact_only ?_
          exact fun _ ↦ ⟨rfl, rfl⟩
        · rfl

theorem submitFeedback_only (hu : db.UniqueActive) (ho : db.Owned owner) (hk : keep p = true)
    (id : FactId) (rating : Rating) :
    (submitFeedback now db p id rating).map (Db.only keep) =
      submitFeedback now (db.only keep) p id rating := by
  rw [submitFeedback, submitFeedback, getProjectFact_only hk]
  cases hf : getProjectFact db p id with
  | error _ => rfl
  | ok f =>
    obtain ⟨rfl, hid⟩ := getProjectFact_owner ho hf
    simp only [ok_bind]
    split
    · exact transitionFactStatus_only hu ho ((congrArg keep hid).trans hk) .disputed
    · rfl

theorem disableSubject_only (hu : db.UniqueActive) (ho : db.Owned owner) {scope : Scope}
    (hk : keep scope.projectId = true) :
    (disableSubject now db scope).map (Db.only keep) =
      disableSubject now (db.only keep) scope := by
  have hrows : (db.only keep).facts.rows.filter
        (fun f ↦ f.scope = scope ∧ (f.status = .active ∨ f.status = .candidate)) =
      db.facts.rows.filter
        fun f ↦ f.scope = scope ∧ (f.status = .active ∨ f.status = .candidate) :=
    filter_filter_of_imp fun f _ hf ↦
      visible_of_eq hk (congrArg Scope.projectId (of_decide_eq_true hf).1)
  have howner : ∀ id ∈ (db.facts.rows.filter fun f ↦ f.scope = scope ∧
      (f.status = .active ∨ f.status = .candidate)).map Fact.id,
      owner id.event = scope.projectId := by
    intro id hid
    obtain ⟨f, hf, rfl⟩ := List.mem_map.mp hid
    obtain ⟨hf, hc⟩ := List.mem_filter.mp hf
    exact (ho.facts f hf).born.trans (congrArg Scope.projectId (of_decide_eq_true hc).1)
  rw [disableSubject, disableSubject, hrows]
  exact foldlM_only
    (fun _ id hid hu ho ↦ transitionFactStatus_only hu ho
      ((congrArg keep (howner id hid)).trans hk) .disabled)
    (fun _ id hid _ _ ho h ↦ transitionFactStatus_stays ho (howner id hid) h) hu ho

end

/-! ## Requests -/

section

variable {m m' : Memory}

theorem resolveAlias_only (hk : keep p = true) (aliases : Table SubjectAlias)
    (aliasKind aliasValue : String) (canonicalSubjectId : Option String) (register : Bool) :
    (resolveAlias aliases p aliasKind aliasValue canonicalSubjectId register).map
        (Prod.map id (Prod.map id fun t ↦ t.filter (visible keep))) =
      resolveAlias (aliases.filter (visible keep)) p aliasKind aliasValue canonicalSubjectId
        register := by
  have hget : (aliases.filter (visible keep)).get? (p, aliasKind, aliasValue) =
      aliases.get? (p, aliasKind, aliasValue) :=
    Table.get?_filter fun a _ ha ↦ visible_of_eq hk (congrArg Prod.fst ha)
  have hinsert (canonical : String) :
      (aliases.insert ⟨p, aliasKind, aliasValue, canonical⟩).filter (visible keep) =
        (aliases.filter (visible keep)).insert ⟨p, aliasKind, aliasValue, canonical⟩ :=
    Table.filter_insert hk fun a _ ha ↦ visible_of_eq hk (congrArg Prod.fst ha)
  rw [resolveAlias, resolveAlias, hget]
  cases aliases.get? (p, aliasKind, aliasValue) with
  | some row =>
    dsimp only
    split <;> rfl
  | none =>
    dsimp only
    split
    · split
      · rfl
      · simp only [Except.map, Prod.map, id, hinsert]
    · rfl

theorem captureSubject_only {scope : Scope} (hk : keep scope.projectId = true)
    (aliases : Table SubjectAlias) (subjectAlias : Option (String × String)) :
    (captureSubject aliases scope subjectAlias).map
        (Prod.map id fun t ↦ t.filter (visible keep)) =
      captureSubject (aliases.filter (visible keep)) scope subjectAlias := by
  cases subjectAlias with
  | none => rfl
  | some subjectAlias =>
    rw [captureSubject, captureSubject, ← resolveAlias_only hk]
    cases resolveAlias aliases scope.projectId subjectAlias.1 subjectAlias.2 none true <;> rfl

theorem Memory.capture_only (ho : m.Owned owner) {event : Event}
    (subjectAlias : Option (String × String)) (hp : event.scope.projectId = p)
    (hevent : owner event.id = p) (hk : keep p = true) :
    (m.capture event subjectAlias).map (Memory.only keep) =
      (m.only keep).capture event subjectAlias := by
  have hscope : keep event.scope.projectId = true := hp ▸ hk
  rw [Memory.capture, Memory.capture, Memory.only]
  dsimp only
  rw [← captureSubject_only hscope]
  cases captureSubject m.subjectAliases event.scope subjectAlias with
  | error _ => rfl
  | ok found =>
    obtain ⟨subjectId, aliases⟩ := found
    have hinsert : (m.ledger.events.insert { event with scope.subjectId := subjectId }).filter
          (visible keep) =
        (m.ledger.events.filter (visible keep)).insert { event with scope.subjectId := subjectId } :=
      Table.filter_insert hscope fun e he hid ↦ visible_of_eq hk <|
        (ho.ledger.events e he).symm.trans ((congrArg owner hid).trans hevent)
    by_cases hempty : subjectId = ""
    · simp only [ok_bind, Except.map, Prod.map, id, if_pos hempty]
    · simp only [ok_bind, Except.map, Prod.map, id, if_neg hempty, Memory.only, Db.only, pure,
        Except.pure, hinsert]

theorem writeEpisodeChunks_only {chunks : Table EpisodeChunk} {events : List Event}
    (hchunks : ∀ c ∈ chunks, owner c.id.event = c.scope.projectId)
    (hevents : ∀ e ∈ events, owner e.id = p ∧ e.scope.projectId = p) (hk : keep p = true) :
    (writeEpisodeChunks env chunks events).filter (visible keep) =
      writeEpisodeChunks env (chunks.filter (visible keep)) events := by
  have howned {c : EpisodeChunk} {e : Event} (he : e ∈ events) (hc : c ∈ chunks)
      (hid : c.id.event = e.id) : visible keep c = true :=
    visible_of_eq hk ((hchunks c hc).symm.trans ((congrArg owner hid).trans (hevents e he).1))
  have hnew : (events.filter fun e ↦ ∀ c ∈ chunks.filter (visible keep), c.id.event ≠ e.id) =
      events.filter fun e ↦ ∀ c ∈ chunks, c.id.event ≠ e.id := by
    refine List.filter_congr fun e he ↦ decide_eq_decide.mpr ⟨fun h c hc hid ↦ ?_, fun h c hc ↦ ?_⟩
    · exact h c (Table.mem_filter.mpr ⟨hc, howned he hc hid⟩) hid
    · exact h c (Table.mem_filter.mp hc).1
  rw [writeEpisodeChunks, writeEpisodeChunks, hnew]
  refine Table.filter_foldl_insert (fun c hc ↦ ?_) fun c hc b hb hid ↦ ?_
  · obtain ⟨e, he, hc⟩ := List.mem_flatMap.mp hc
    rw [visible]
    show keep c.scope.projectId = true
    rw [(eventChunks_scope hc).2, (hevents e (List.mem_filter.mp he).1).2, hk]
  · obtain ⟨e, he, hc⟩ := List.mem_flatMap.mp hc
    exact howned (List.mem_filter.mp he).1 hb
      ((congrArg ChunkId.event hid).trans (eventChunks_scope hc).1)

theorem Memory.consolidate_only (hu : m.ledger.UniqueActive) (ho : m.Owned owner)
    (hk : keep p = true) {eventIds : List EventId} (hids : ∀ id ∈ eventIds, owner id = p)
    (extract : Extractor) (only : Option (List EventId)) :
    (m.consolidate env extract eventIds only).map (Memory.only keep) =
      (m.only keep).consolidate env extract eventIds only := by
  have hevents : ∀ e ∈ jobEvents m.ledger eventIds only,
      owner e.id = p ∧ e.scope.projectId = p := by
    intro e he
    have hid := hids e.id (mem_jobEvents_id he)
    exact ⟨hid, (ho.ledger.events e (mem_jobEvents he)).symm.trans hid⟩
  have hjob : jobEvents (m.ledger.only keep) eventIds only = jobEvents m.ledger eventIds only :=
    jobEvents_only ho.ledger (fun id hid ↦ hids id hid ▸ hk) only
  have hchunks : (writeEpisodeChunks env m.episodeChunks (jobEvents m.ledger eventIds only)).filter
      (visible keep) = writeEpisodeChunks env (m.episodeChunks.filter (visible keep))
        (jobEvents m.ledger eventIds only) :=
    writeEpisodeChunks_only ho.episodeChunks hevents hk
  rw [Memory.consolidate, Memory.consolidate, Memory.only]
  dsimp only
  rw [processJob_only hu ho.ledger hk hids, hjob, ← hchunks]
  cases processJob env extract m.ledger eventIds only <;> rfl

theorem Memory.submitFeedback_only (hu : m.ledger.UniqueActive) (ho : m.Owned owner)
    (hk : keep p = true) (now : Timestamp) (target : FeedbackTarget) (rating : Rating) :
    (m.submitFeedback now p target rating).map (Memory.only keep) =
      (m.only keep).submitFeedback now p target rating := by
  have hledger : (target.observe now m.ledger p rating).map (Db.only keep) =
      target.observe now (m.ledger.only keep) p rating := by
    cases target with
    | trace id => rfl
    | fact id => exact Haki.submitFeedback_only hu ho.ledger hk id rating
  have hrow : visible keep (Feedback.of p rating target) = true := by
    cases target <;> exact hk
  rw [Memory.submitFeedback, Memory.submitFeedback, Memory.only]
  dsimp only
  rw [← hledger]
  cases target.observe now m.ledger p rating with
  | error _ => rfl
  | ok ledger =>
    refine congrArg Except.ok ?_
    rw [Memory.only]
    dsimp only
    rw [List.filter_append, List.filter_cons_of_pos hrow, List.filter_nil]

/-- Erasing a subject, seen by the projects. -/
theorem Memory.deleteSubject_only {scope : Scope} (hk : keep scope.projectId = true) :
    (m.deleteSubject scope).only keep = (m.only keep).deleteSubject scope := by
  have hledger : (Haki.deleteSubject m.ledger scope).only keep =
      Haki.deleteSubject (m.ledger.only keep) scope := by
    rw [Haki.deleteSubject, Haki.deleteSubject, Db.only, Db.only]
    dsimp only
    rw [Table.filter_comm, Table.filter_comm _ _ m.ledger.facts,
      Table.filter_comm _ _ m.ledger.conflictSets, Table.filter_comm _ _ m.ledger.predicateAliases,
      filter_comm]
  have hchunk (c : EpisodeChunk) :
      (∃ e ∈ (m.only keep).ledger.events, e.id = c.id.event ∧ e.scope = scope) ↔
        ∃ e ∈ m.ledger.events, e.id = c.id.event ∧ e.scope = scope := by
    constructor
    · rintro ⟨e, he, hc⟩
      exact ⟨e, (Table.mem_filter.mp he).1, hc⟩
    · rintro ⟨e, he, hid, hscope⟩
      have hv : visible keep e = true := visible_of_eq hk (congrArg Scope.projectId hscope)
      exact ⟨e, Table.mem_filter.mpr ⟨he, hv⟩, hid, hscope⟩
  have hrow (row : Feedback) : (m.only keep).OnFactOf scope row ↔ m.OnFactOf scope row := by
    constructor
    · rintro ⟨id, hid, f, hf, hfid⟩
      exact ⟨id, hid, f, (Table.mem_filter.mp hf).1, hfid⟩
    · rintro ⟨id, hid, f, hf, hfid, hscope⟩
      have hv : visible keep f = true := visible_of_eq hk (congrArg Scope.projectId hscope)
      exact ⟨id, hid, f, Table.mem_filter.mpr ⟨hf, hv⟩, hfid, hscope⟩
  rw [Memory.deleteSubject, Memory.deleteSubject, Memory.only]
  dsimp only
  congr 1
  · rw [Table.filter_comm]
    refine Table.ext (List.filter_congr fun c _ ↦ decide_eq_decide.mpr (not_congr ?_))
    exact (hchunk c).symm
  · exact Table.filter_comm _ _ m.subjectAliases
  · rw [filter_map_of_eq fun row _ ↦ by split <;> rfl, filter_comm]
    show _ = (((m.feedback.filter (visible keep)).filter _).map _ : List Feedback)
    simp only [hrow]

theorem Table.visible_rescope {α κ : Type} [Keyed α κ] [DecidableEq κ] [Tenanted α] [Scoped α]
    {source target : String} (hkey : ∀ a : α, key (rescope (Scope.merge p source target) a) = key a)
    (htenant : ∀ a : α, Tenanted.projectId a = (Scoped.scope a).projectId) (t : Table α) :
    (t.modify (rescope (Scope.merge p source target))).filter (visible keep) =
      (t.filter (visible keep)).modify (rescope (Scope.merge p source target)) :=
  Table.visible_modify hkey (projectId_rescope htenant) t

theorem Db.rescoped_only (source target : String) (ledger : Db) :
    (ledger.rescoped (Scope.merge p source target)).only keep =
      (ledger.only keep).rescoped (Scope.merge p source target) := by
  have htraces : (ledger.contextTraces.map (rescope (Scope.merge p source target))).filter
        (visible keep) =
      (ledger.contextTraces.filter (visible keep)).map (rescope (Scope.merge p source target)) :=
    filter_map_of_eq fun t _ ↦ congrArg keep (projectId_rescope (fun _ ↦ rfl) t)
  rw [Db.rescoped, Db.rescoped, Db.only, Db.only]
  dsimp only
  rw [Table.visible_rescope (fun _ ↦ rfl) fun _ ↦ rfl,
    Table.visible_rescope (fun _ ↦ rfl) fun _ ↦ rfl,
    Table.visible_rescope (fun _ ↦ rfl) fun _ ↦ rfl, htraces]

/-- The receipt of a merge counts rows of the project. -/
theorem Memory.receipt_only (hk : keep p = true) (m : Memory) (source target : String) :
    (m.only keep).receipt p source target = m.receipt p source target := by
  have hrows {α : Type} [Tenanted α] {f : α → Scope}
      (hf : ∀ a, Tenanted.projectId a = (f a).projectId) (l : List α) :
      ((l.filter (visible keep)).filter fun a ↦ f a = ⟨p, source⟩) =
        l.filter fun a ↦ f a = ⟨p, source⟩ :=
    filter_filter_of_imp fun a _ ha ↦
      visible_of_eq hk ((hf a).trans (congrArg Scope.projectId (of_decide_eq_true ha)))
  have haliases : ((m.subjectAliases.rows.filter (visible keep)).filter fun a ↦
        a.projectId = p ∧ a.canonicalSubjectId = source) =
      m.subjectAliases.rows.filter fun a ↦ a.projectId = p ∧ a.canonicalSubjectId = source :=
    filter_filter_of_imp fun a _ ha ↦ visible_of_eq hk (of_decide_eq_true ha).1
  have hmoved : (m.only keep).movedRows p source = m.movedRows p source := by
    rw [Memory.movedRows, Memory.movedRows, Memory.only, Db.only]
    dsimp only [Table.rows_filter]
    rw [hrows fun _ ↦ rfl, hrows fun _ ↦ rfl, hrows fun _ ↦ rfl, hrows fun _ ↦ rfl, haliases]
  rw [Memory.receipt, Memory.receipt, hmoved]

theorem Memory.mergeSubjects_only (hu : m.ledger.UniqueActive) (hk : keep p = true)
    (source target : String) :
    ((m.mergeSubjects p source target).map Prod.fst).map (Memory.only keep) =
      ((m.only keep).mergeSubjects p source target).map Prod.fst := by
  have hledger : flush ((m.ledger.only keep).rescoped (Scope.merge p source target)) =
      (flush (m.ledger.rescoped (Scope.merge p source target))).map (Db.only keep) := by
    rw [← Db.rescoped_only]
    exact flush_only hu hk (Db.rescoped_confined source target m.ledger)
  have hchunks : (m.episodeChunks.modify (rescope (Scope.merge p source target))).filter
        (visible keep) = (m.episodeChunks.filter (visible keep)).modify
          (rescope (Scope.merge p source target)) :=
    Table.visible_rescope (fun _ ↦ rfl) (fun _ ↦ rfl) m.episodeChunks
  have haliases : ((m.subjectAliases.modify (SubjectAlias.repoint p source target)).insert
        ⟨p, tombstoneKind, source, target⟩).filter (visible keep) =
      ((m.subjectAliases.filter (visible keep)).modify (SubjectAlias.repoint p source target)).insert
        ⟨p, tombstoneKind, source, target⟩ := by
    have htombstone : visible keep (⟨p, tombstoneKind, source, target⟩ : SubjectAlias) = true := hk
    rw [Table.filter_insert htombstone fun a _ ha ↦ visible_of_eq hk (congrArg Prod.fst ha),
      Table.visible_modify (key_repoint p source target) (SubjectAlias.repoint_projectId source target)]
  have hreceipts : (m.mergeReceipts ++ [m.receipt p source target]).filter (visible keep) =
      m.mergeReceipts.filter (visible keep) ++ [(m.only keep).receipt p source target] := by
    rw [List.filter_append, Memory.receipt_only hk]
    exact congrArg _ (List.filter_cons_of_pos hk)
  rw [Memory.mergeSubjects, Memory.mergeSubjects]
  split
  · rfl
  · dsimp only
    show _ = Except.map Prod.fst
      ((flush ((m.ledger.only keep).rescoped _)).mapError SubjectError.ledger >>= _)
    rw [hledger]
    cases flush (m.ledger.rescoped (Scope.merge p source target)) with
    | error _ => rfl
    | ok ledger =>
      refine congrArg Except.ok ?_
      rw [Memory.only]
      dsimp only
      rw [hchunks, haliases, hreceipts]
      rfl

/-! ## Requests as a whole -/

/-- **Locality.**  A request of one of the projects does to their part of the memory what it does to
the memory, or fails with the same error. -/
theorem Request.exec_only {request : Request} (hof : request.Of owner p) (hk : keep p = true)
    (hu : m.ledger.UniqueActive) (ho : m.Owned owner) :
    (request.exec env m).map (Memory.only keep) = request.exec env (m.only keep) := by
  have ledgerOnly {x : Except LedgerError Db} {y : Except LedgerError Db}
      (h : x.map (Db.only keep) = y) :
      (x.mapError SubjectError.ledger >>= fun ledger ↦
          .ok { m with ledger := ledger }).map (Memory.only keep) =
        y.mapError SubjectError.ledger >>= fun ledger ↦
          .ok { m.only keep with ledger := ledger } := by
    subst h
    cases x <;> rfl
  cases request with
  | capture event subjectAlias => exact Memory.capture_only ho subjectAlias hof.1 hof.2 hk
  | consolidate now extract eventIds only =>
    exact Memory.consolidate_only hu ho hk hof extract only
  | resolveConflict now projectId id kept =>
    cases hof
    exact ledgerOnly (resolveConflict_only hu ho.ledger hk id kept)
  | forgetFact now projectId id mode =>
    cases hof
    exact ledgerOnly (forgetFact_only hu ho.ledger hk id mode)
  | forgetSubject now scope mode =>
    cases hof
    cases mode with
    | disable => exact ledgerOnly (disableSubject_only hu ho.ledger hk)
    | delete => exact congrArg Except.ok (Memory.deleteSubject_only hk)
  | feedback now projectId target rating =>
    cases hof
    exact Memory.submitFeedback_only hu ho hk now target rating
  | context trace =>
    refine congrArg Except.ok ?_
    have hv : visible keep trace = true := visible_of_eq hk hof.1
    rw [Memory.only, Memory.only, Db.only, Db.only]
    dsimp only
    rw [List.filter_append, List.filter_cons_of_pos hv, List.filter_nil]
  | resolveAlias projectId aliasKind aliasValue canonicalSubjectId =>
    cases hof
    rw [Request.exec, Request.exec, Memory.only]
    dsimp only
    rw [← resolveAlias_only hk]
    cases Haki.resolveAlias m.subjectAliases p aliasKind aliasValue canonicalSubjectId true <;> rfl
  | mergeSubjects projectId source target =>
    cases hof
    exact Memory.mergeSubjects_only hu hk source target

end

end Haki
