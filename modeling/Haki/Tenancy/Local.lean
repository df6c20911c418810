import Haki.Tenancy.Requests

/-!
# Requests read their project only

What a request of a project does depends on the rows of the project alone: run
on what a set of projects sees of the memory, it does to it what it does to the
memory (`Request.exec_only`), and it fails with the same error.  The lookups of
the adjudicator are filtered by scope, or lead along ids the project owns.  The
partial unique index is checked over all projects, but two rows in one slot are
of one scope.
-/

namespace Haki

open Data Control

variable {owner : EventId → String} {env : Env} {keep : String → Bool} {db : Db}

/-! ## Lookups -/

theorem visible_of_eq {α : Type} [Tenanted α] {a : α} {p : String} (hk : keep p = true)
    (ha : Tenanted.projectId a = p) : visible keep a = true :=
  (congrArg keep ha).trans hk

section

variable {scope : Scope} {predicate : String} {qualifiers value : Dict} {embedding : Embedding}

theorem activeFact_only (hk : keep scope.projectId = true) :
    (db.only keep).activeFact scope predicate qualifiers =
      db.activeFact scope predicate qualifiers := by
  rw [Db.activeFact, Db.activeFact]
  refine congrArg (fun l : List Fact ↦ (l.insertionSort _).find? _) ?_
  exact filter_filter_of_imp fun f _ hf ↦
    visible_of_eq hk (congrArg Scope.projectId (of_decide_eq_true hf).1)

theorem findDuplicate_only (hk : keep scope.projectId = true) :
    (db.only keep).findDuplicate scope predicate value qualifiers =
      db.findDuplicate scope predicate value qualifiers := by
  have hrows : (db.only keep).duplicates scope predicate value qualifiers =
      db.duplicates scope predicate value qualifiers :=
    filter_filter_of_imp fun f _ hf ↦
    visible_of_eq hk (congrArg Scope.projectId (of_decide_eq_true hf).1)
  rw [Db.findDuplicate, Db.findDuplicate, hrows]

theorem aliasOf_only (hk : keep scope.projectId = true) :
    (db.only keep).aliasOf scope predicate = db.aliasOf scope predicate := by
  refine congrArg (Option.map _) (Table.get?_filter fun a _ ha ↦ visible_of_eq hk ?_)
  exact congrArg (fun k : Scope × String ↦ k.1.projectId) ha

theorem nearestActiveFact_only (hk : keep scope.projectId = true) :
    (db.only keep).nearestActiveFact env scope qualifiers embedding =
      db.nearestActiveFact env scope qualifiers embedding := by
  rw [Db.nearestActiveFact, Db.nearestActiveFact]
  refine congrArg (fun l : List (Fact × ℚ) ↦ (l.insertionSort _).head?) ?_
  refine filterMap_filter_of_imp fun f _ hf ↦ ?_
  split at hf
  · next hc => exact visible_of_eq hk (congrArg Scope.projectId hc.1)
  · cases hf

theorem learnAlias_only (hk : keep scope.projectId = true) (canonical : String) :
    (db.only keep).learnAlias scope predicate canonical =
      (db.learnAlias scope predicate canonical).only keep := by
  have haliases : (db.predicateAliases.insert ⟨scope, predicate, canonical⟩).filter (visible keep) =
      (db.predicateAliases.filter (visible keep)).insert ⟨scope, predicate, canonical⟩ := by
    refine Table.filter_insert hk fun a _ ha ↦ visible_of_eq hk ?_
    exact congrArg (fun k : Scope × String ↦ k.1.projectId) ha
  rw [Db.learnAlias, Db.learnAlias, Db.only, Db.only]
  dsimp only
  rw [haliases]

theorem resolveExistingFact_only (hk : keep scope.projectId = true) :
    (db.only keep).resolveExistingFact env scope predicate qualifiers embedding =
      Prod.map id (Db.only keep)
        (db.resolveExistingFact env scope predicate qualifiers embedding) := by
  rw [Db.resolveExistingFact, Db.resolveExistingFact, activeFact_only hk, aliasOf_only hk,
    nearestActiveFact_only hk]
  cases db.activeFact scope predicate qualifiers with
  | some exact => rfl
  | none =>
    simp only [activeFact_only hk]
    cases (db.aliasOf scope predicate).bind fun canonical ↦
        db.activeFact scope canonical qualifiers with
    | some aliased => rfl
    | none =>
      cases db.nearestActiveFact env scope qualifiers embedding with
      | none => rfl
      | some nearest =>
        dsimp only
        split
        · rfl
        · split
          · rw [learnAlias_only hk]
            rfl
          · rfl

theorem findQualifierAmbiguousActiveFact_only (hk : keep scope.projectId = true) :
    (db.only keep).findQualifierAmbiguousActiveFact scope predicate qualifiers value =
      db.findQualifierAmbiguousActiveFact scope predicate qualifiers value := by
  rw [Db.findQualifierAmbiguousActiveFact, Db.findQualifierAmbiguousActiveFact, aliasOf_only hk]
  refine congrArg (List.findSome? · _) (funext fun onePredicate ↦ ?_)
  exact find?_filter_of_imp fun f _ hf ↦
    visible_of_eq hk (congrArg Scope.projectId (of_decide_eq_true hf).1)

theorem openConflictSet_only (hk : keep scope.projectId = true) (id : FactId) :
    (db.only keep).openConflictSet scope id = db.openConflictSet scope id :=
  find?_filter_of_imp fun _ _ hs ↦
    visible_of_eq hk (congrArg Scope.projectId (of_decide_eq_true hs).1)

/-- A fact born of an event of the projects is found among their facts. -/
theorem fact?_only (ho : db.Owned owner) {id : FactId} (hid : keep (owner id.event) = true) :
    (db.only keep).fact? id = db.fact? id :=
  Table.get?_filter fun _ hf hfid ↦ visible_of_eq hid (ho.projectId_of_id rfl hf hfid)

end

/-! ## Matching -/

section

variable {c : Candidate} {embedding : Embedding} {event : Event}

theorem matchTarget_only (hk : keep event.scope.projectId = true) :
    matchTarget env (db.only keep) c embedding event =
      Prod.map id (Db.only keep) (matchTarget env db c embedding event) := by
  rw [matchTarget, matchTarget, resolveExistingFact_only hk]
  dsimp only [Prod.map, id]
  rw [findQualifierAmbiguousActiveFact_only hk]
  split
  · split <;> rfl
  · rfl

theorem matchCandidate_only (hk : keep event.scope.projectId = true) :
    matchCandidate env (db.only keep) c embedding event =
      Prod.map id (Db.only keep) (matchCandidate env db c embedding event) := by
  rw [matchCandidate, matchCandidate, findDuplicate_only hk]
  cases db.findDuplicate event.scope c.predicate c.value c.qualifiers with
  | none => exact matchTarget_only hk
  | some duplicate =>
    dsimp only
    split
    · rfl
    · rw [resolveExistingFact_only hk]
      cases db.resolveExistingFact env event.scope c.targetPredicate c.qualifiers embedding with
      | mk found db₁ =>
        cases found with
        | none => rfl
        | some f => exact matchTarget_only hk

end

/-! ## Fresh keys -/

section

variable {e : EventId}

/-- The ids drawn for an event are mentioned by rows of its project only. -/
theorem factIds_only (ho : db.Owned owner) (he : keep (owner e) = true) :
    ((db.only keep).factIds.filter fun id ↦ id.event = e) =
      db.factIds.filter fun id ↦ id.event = e := by
  have hevent {id : FactId} (hid : id.event = e) : keep (owner id.event) = true := hid ▸ he
  have hfacts : ((db.only keep).facts.rows.map Fact.id).filter (fun id ↦ id.event = e) =
      (db.facts.rows.map Fact.id).filter fun id ↦ id.event = e := by
    rw [List.filter_map, List.filter_map]
    refine congrArg _ (filter_filter_of_imp fun f hf hid ↦ ?_)
    exact visible_of_eq (hevent (of_decide_eq_true hid)) (ho.facts f hf).born.symm
  have hmembers {α : Type} [Tenanted α] {l : List α} {ids : α → List FactId}
      (hids : ∀ a ∈ l, ∀ id ∈ ids a, owner id.event = Tenanted.projectId a) :
      ((l.filter (visible keep)).flatMap ids).filter (fun id ↦ id.event = e) =
        (l.flatMap ids).filter fun id ↦ id.event = e := by
    induction l with
    | nil => rfl
    | cons a l ih =>
      obtain ⟨ha, hl⟩ := List.forall_mem_cons.mp hids
      rw [List.filter_cons]
      split
      · rw [List.flatMap_cons, List.flatMap_cons, List.filter_append, List.filter_append, ih hl]
      · next hhidden =>
        have hnone : (ids a).filter (fun id ↦ id.event = e) = [] := by
          refine List.filter_eq_nil_iff.mpr fun id hid heq ↦ hhidden ?_
          exact visible_of_eq (hevent (of_decide_eq_true heq)) (ha id hid).symm
        rw [List.flatMap_cons, List.filter_append, hnone, List.nil_append, ih hl]
  rw [Db.factIds, Db.factIds]
  simp only [List.filter_append]
  rw [hfacts]
  refine congrArg₂ _ (congrArg _ ?_) ?_
  · exact hmembers fun s hs ↦ (ho.conflictSets s hs).members
  · exact hmembers ho.contextTraces

theorem freshFactId_only (ho : db.Owned owner) (he : keep (owner e) = true) :
    (db.only keep).freshFactId e = db.freshFactId e := by
  rw [Db.freshFactId, Db.freshFactId, factIds_only ho he]

theorem freshConflictId_only (ho : db.Owned owner) (he : keep (owner e) = true) :
    (db.only keep).freshConflictId e = db.freshConflictId e := by
  rw [Db.freshConflictId, Db.freshConflictId, List.filter_map, List.filter_map]
  refine congrArg (fun l : List ConflictSet ↦ ConflictId.mk e ((l.map _).foldr _ 0)) ?_
  refine filter_filter_of_imp fun s hs hid ↦ ?_
  have hevent : s.id.event = e := of_decide_eq_true hid
  exact visible_of_eq (hevent ▸ he : keep (owner s.id.event) = true) (ho.conflictSets s hs).born.symm

end

/-! ## The index -/

/-- Two rows in one slot are of one project, so the index can be checked for each. -/
theorem uniqueActive_iff_only (keep : String → Bool) : db.UniqueActive ↔
    (db.only keep).UniqueActive ∧ (db.only fun p ↦ !keep p).UniqueActive := by
  refine ⟨fun hu ↦ ⟨hu.filter _, hu.filter _⟩, fun ⟨hin, hout⟩ f hf hfc g hg hgc hslot ↦ ?_⟩
  have hproject : g.scope.projectId = f.scope.projectId :=
    (congrArg Scope.projectId hslot.1).symm
  cases hk : keep f.scope.projectId with
  | true =>
    have hgk : keep g.scope.projectId = true := hproject ▸ hk
    exact hin f (List.mem_filter.mpr ⟨hf, hk⟩) hfc g (List.mem_filter.mpr ⟨hg, hgk⟩) hgc hslot
  | false =>
    have hfk : (!keep f.scope.projectId) = true := by rw [hk]; rfl
    have hgk : (!keep g.scope.projectId) = true := hproject ▸ hfk
    exact hout f (List.mem_filter.mpr ⟨hf, hfk⟩) hfc g (List.mem_filter.mpr ⟨hg, hgk⟩) hgc hslot

/-- A write that stays in one of the projects is refused in their part when it is refused. -/
theorem flush_only {db' : Db} {p : String} (hu : db.UniqueActive) (hk : keep p = true)
    (h : db.Confined p db') : flush (db'.only keep) = (flush db').map (Db.only keep) := by
  have hrest : (db'.only fun q ↦ !keep q).UniqueActive := by
    rw [h _ (by rw [hk]; rfl)]
    exact hu.filter _
  by_cases hu' : db'.UniqueActive
  · rw [flush_of_unique hu', flush_of_unique ((uniqueActive_iff_only keep).mp hu').1]
    rfl
  · have hin : ¬ (db'.only keep).UniqueActive := fun hin ↦
      hu' ((uniqueActive_iff_only keep).mpr ⟨hin, hrest⟩)
    rw [flush, flush, if_neg hu', if_neg hin]
    rfl

/-! ## Applying a candidate -/

section

variable {c c' : Candidate} {embedding : Embedding} {event : Event} {result : JobResult}
  {existing : Option Fact} {row : Fact} {e : Effect}

theorem candidateRow_only (ho : db.Owned owner) (he : keep (owner event.id) = true) :
    candidateRow env (db.only keep) c existing embedding event =
      candidateRow env db c existing embedding event := by
  rw [candidateRow, candidateRow, freshFactId_only ho he]

theorem effectOf_only (ho : db.Owned owner) (hk : keep event.scope.projectId = true)
    (memoryForm : MemoryForm) :
    effectOf (db.only keep) c existing memoryForm event =
      effectOf db c existing memoryForm event := by
  have hcontra (old : Fact) : contradictionOf (db.only keep) event old =
      contradictionOf db event old := by
    rw [contradictionOf, contradictionOf, openConflictSet_only hk]
    cases hopen : db.openConflictSet event.scope old.id with
    | none => rfl
    | some conflict =>
      obtain ⟨-, -, hmembers⟩ := openConflictSet_owned ho hopen
      dsimp only
      split
      · cases hfind : conflict.factIds.find? (· ≠ old.id) with
        | none => rfl
        | some otherId =>
          have hother := hmembers otherId (List.mem_of_find?_eq_some hfind)
          dsimp only
          rw [fact?_only ho (hother ▸ hk)]
      · rfl
  cases existing with
  | none => rfl
  | some old => simp only [effectOf, hcontra]

theorem Adjudicated.apply_only (h : Adjudicated env db event c c' existing row e)
    (ho : db.Owned owner) (hevent : owner event.id = event.scope.projectId)
    (hk : keep event.scope.projectId = true) :
    e.apply env event (db.only keep) row = (e.apply env event db row).only keep := by
  have hfacts : ((db.facts.modify (e.onFact env event)).insert (e.onRow env row)).filter
      (visible keep) = ((db.facts.filter (visible keep)).modify (e.onFact env event)).insert
        (e.onRow env row) := by
    have hrow : visible keep (e.onRow env row) = true :=
      visible_of_eq hk (congrArg Scope.projectId
        ((Fact.scope_of_content (e.onRow_content row)).trans h.scope))
    rw [Table.filter_insert hrow fun f hf hid ↦ absurd hid (Effect.fresh_onRow h.fresh f hf),
      Table.visible_modify (Effect.onFact_id env event e) fun f ↦ congrArg Scope.projectId
        (Fact.scope_of_content (e.onFact_content f))]
  have hsets : e.onSets env event (db.only keep) row.id =
      (e.onSets env event db row.id).filter (visible keep) := by
    have hfresh : (db.only keep).freshConflictId event.id = db.freshConflictId event.id :=
      freshConflictId_only ho (hevent ▸ hk)
    have new (ids : List FactId) (kind : ConflictKind) :
        (db.conflictSets.filter (visible keep)).insert
            (newConflictSet env (db.only keep) event ids kind) =
          (db.conflictSets.insert (newConflictSet env db event ids kind)).filter (visible keep) := by
      rw [newConflictSet, newConflictSet, hfresh]
      exact (Table.filter_insert (a := newConflictSet env db event ids kind) hk fun s hs hid ↦
        absurd hid (db.freshConflictId_ne event.id hs)).symm
    have known (id : ConflictId) (g : ConflictSet → ConflictSet)
        (hg : ∀ s, (g s).id = s.id ∧ (g s).scope = s.scope) :
        (db.conflictSets.filter (visible keep)).update id g =
          (db.conflictSets.update id g).filter (visible keep) :=
      (Table.visible_update (fun s ↦ (hg s).1)
        (fun s ↦ congrArg Scope.projectId (hg s).2) db.conflictSets).symm
    cases e with
    | hold => exact new _ _
    | openConflict old => exact new _ _
    | joinConflict s => exact known _ _ fun _ ↦ ⟨rfl, rfl⟩
    | overflow old s other => exact known _ _ fun _ ↦ ⟨rfl, rfl⟩
    | accept | replace => rfl
  rw [Effect.apply, Effect.apply, hsets, Db.only, Db.only]
  dsimp only
  rw [hfacts]

theorem adjudicate_only (hu : db.UniqueActive) (ho : db.Owned owner)
    (hmatched : Matched db event c c' existing) (hevent : owner event.id = event.scope.projectId)
    (hk : keep event.scope.projectId = true) :
    adjudicate env (db.only keep) c' existing embedding event result =
      (adjudicate env db c' existing embedding event result).map
        (Prod.map (Db.only keep) id) := by
  have hactive : ∀ old ∈ existing, old ∈ (db.only keep).facts ∧ old.status = .active :=
    fun old hold ↦
      have ⟨hmem, hscope, hstatus⟩ := hmatched.active old hold
      ⟨Table.mem_filter.mpr ⟨hmem, visible_of_eq hk (congrArg Scope.projectId hscope)⟩, hstatus⟩
  have hin : (db.only keep).UniqueActive := hu.filter _
  rw [adjudicate_eq hin hactive,
    adjudicate_eq hu fun old hold ↦ ⟨(hmatched.active old hold).1, (hmatched.active old hold).2.2⟩,
    candidateRow_only ho (hevent ▸ hk)]
  cases hrow : candidateRow env db c' existing embedding event with
  | error _ => rfl
  | ok row =>
    simp only [ok_bind, effectOf_only ho hk]
    cases he : effectOf db c' existing row.memoryForm event with
    | error _ => rfl
    | ok e =>
      obtain ⟨temporalRange, observedAt, rfl⟩ := candidateRow_eq_ok hrow
      have hadj : Adjudicated env db event c c' existing _ e :=
        { hmatched with
          guard := effectOf_guard he
          id := rfl
          status := rfl
          scope := rfl
          predicate := rfl
          value := rfl
          qualifiers := rfl
          validFrom := rfl
          validTo := rfl
          recordedFrom := rfl
          supersedesId := rfl
          sourceEventIds := rfl
          originTrust := rfl
          factKind := rfl
          memoryForm := rfl }
      simp only [ok_bind]
      rw [hadj.apply_only ho hevent hk, flush_only hu hk (hadj.confined ho rfl)]
      cases flush _ <;> rfl

theorem applyCandidate_only (hu : db.UniqueActive) (ho : db.Owned owner)
    (hevent : owner event.id = event.scope.projectId) (hk : keep event.scope.projectId = true) :
    applyCandidate env (db.only keep) c embedding event result =
      (applyCandidate env db c embedding event result).map (Prod.map (Db.only keep) id) := by
  obtain ⟨aliases, hsnd⟩ := matchCandidate_snd env db c embedding event
  rw [applyCandidate, applyCandidate, matchCandidate_only hk]
  cases hm : matchCandidate env db c embedding event with
  | mk found db₁ =>
    obtain rfl : db₁ = { db with predicateAliases := aliases } :=
      (congrArg Prod.snd hm).symm.trans hsnd
    cases found with
    | duplicate f =>
      have hfacts : (db.facts.update f.id (·.reinforcedBy event)).filter (visible keep) =
          (db.facts.filter (visible keep)).update f.id (·.reinforcedBy event) :=
        Table.visible_update (f := (·.reinforcedBy event)) (·.reinforcedBy_id event)
          (fun _ ↦ rfl) db.facts
      simp only [Prod.map, id, reinforceOrCountDuplicate, Except.map]
      split
      · rfl
      · rw [Db.updateFact, Db.updateFact, Db.only, Db.only]
        dsimp only
        rw [hfacts]
    | against c' existing =>
      obtain ⟨hcandidate, hactive, hdiffers⟩ := matchCandidate_against (congrArg Prod.fst hm)
      have hu₁ : ({ db with predicateAliases := aliases } : Db).UniqueActive := hu
      exact adjudicate_only hu₁ (ho.withAliases aliases) ⟨hcandidate, hactive, hdiffers⟩ hevent hk

end

/-! ## Jobs -/

section

variable {event : Event} {extract : Extractor}

theorem antiEchoReason_only (ho : db.Owned owner) (hk : keep event.scope.projectId = true)
    (c : Candidate) : antiEchoReason env event (db.only keep) c = antiEchoReason env event db c := by
  have htraces : recentlyServedFactIds (db.only keep) event.scope =
      recentlyServedFactIds db event.scope := by
    refine congrArg (fun l : List ContextTrace ↦
      ((l.insertionSort _).take antiEchoTraceLookback).flatMap ContextTrace.factIds) ?_
    exact filter_filter_of_imp fun t _ ht ↦
      visible_of_eq hk (congrArg Scope.projectId (of_decide_eq_true ht))
  -- A served fact was born of an event of the project the trace is of.
  have hserved : (db.only keep).facts.rows.filter
        (fun f ↦ f.id ∈ recentlyServedFactIds db event.scope) =
      db.facts.rows.filter fun f ↦ f.id ∈ recentlyServedFactIds db event.scope := by
    refine filter_filter_of_imp fun f hf hid ↦ ?_
    obtain ⟨t, ht, hid⟩ := List.mem_flatMap.mp (of_decide_eq_true hid)
    have ht := (List.mem_insertionSort _).mp (List.mem_of_mem_take ht)
    obtain ⟨ht, hscope⟩ := List.mem_filter.mp ht
    have hscope : t.scope = event.scope := of_decide_eq_true hscope
    refine visible_of_eq hk ?_
    exact ((ho.facts f hf).born.symm.trans (ho.contextTraces t ht f.id hid)).trans
      (congrArg Scope.projectId hscope)
  rw [antiEchoReason, antiEchoReason, echoRejectReason, echoRejectReason, htraces]
  simp only [hserved]

theorem applyAdmitted_only (hevent : owner event.id = event.scope.projectId)
    (hk : keep event.scope.projectId = true) {state : Db × JobResult} (hu : state.1.UniqueActive)
    (ho : state.1.Owned owner) (c : Candidate) :
    (applyAdmitted env event state c).map (Prod.map (Db.only keep) id) =
      applyAdmitted env event (Prod.map (Db.only keep) id state) c := by
  rw [applyAdmitted, applyAdmitted]
  simp only [Prod.map_fst, Prod.map_snd, antiEchoReason_only ho hk, id]
  cases antiEchoReason env event state.1 c with
  | some reason => rfl
  | none => exact (applyCandidate_only hu ho hevent hk).symm

theorem applyAll_only (hevent : owner event.id = event.scope.projectId)
    (hk : keep event.scope.projectId = true) (hu : db.UniqueActive) (ho : db.Owned owner)
    (candidates : List Candidate) (result : JobResult) :
    (candidates.foldlM (applyAdmitted env event) (db, result)).map (Prod.map (Db.only keep) id) =
      candidates.foldlM (applyAdmitted env event) (db.only keep, result) :=
  foldlM_map_of (I := fun s : Db × JobResult ↦ s.1.UniqueActive ∧ s.1.Owned owner)
    (fun _ c _ hI ↦ applyAdmitted_only hevent hk hI.1 hI.2 c)
    (fun _ _ _ _ hI hs ↦
      have hstays := applyAdmitted_stays hI.1 hI.2 rfl hevent hs
      ⟨hstays.unique, hstays.owned⟩) ⟨hu, ho⟩

theorem existingViews_only (ho : db.Owned owner) (hevent : owner event.id = event.scope.projectId)
    (hk : keep event.scope.projectId = true) :
    existingViews env (db.only keep) event = existingViews env db event := by
  have hrow : (db.only keep).events.get? event.id = db.events.get? event.id :=
    Table.get?_filter fun e he hid ↦ visible_of_eq hk <|
      (ho.events e he).symm.trans ((congrArg owner hid).trans hevent)
  have hactive : (db.only keep).facts.rows.filter
        (fun f ↦ f.scope = event.scope ∧ f.status = .active) =
      db.facts.rows.filter fun f ↦ f.scope = event.scope ∧ f.status = .active :=
    filter_filter_of_imp fun f _ hf ↦
      visible_of_eq hk (congrArg Scope.projectId (of_decide_eq_true hf).1)
  simp only [existingViews, hrow, relevantExistingFacts, hactive]

/-- Writing the index columns of an event. -/
theorem indexEvent_only (e : EventId) (embedding : Option Embedding) (text : Option String) :
    ({ db with events := db.events.update e fun event ↦
        { event with embedding := embedding, indexText := text } } : Db).only keep =
      { db.only keep with events := (db.only keep).events.update e fun event ↦
        { event with embedding := embedding, indexText := text } } := by
  have hevents : (db.events.update e fun event ↦
        { event with embedding := embedding, indexText := text }).filter (visible keep) =
      (db.events.filter (visible keep)).update e fun event ↦
        { event with embedding := embedding, indexText := text } := by
    refine Table.visible_update ?_ ?_ db.events
    · exact fun _ ↦ rfl
    · exact fun _ ↦ rfl
  rw [Db.only, Db.only]
  dsimp only
  rw [hevents]

theorem indexTouchedFacts_only (ho : db.Owned owner)
    (he : keep (owner event.id) = true) :
    indexTouchedFacts env (db.only keep) event = (indexTouchedFacts env db event).only keep := by
  have htouched : (db.only keep).facts.rows.filter (fun f ↦ event.id ∈ f.sourceEventIds) =
      db.facts.rows.filter fun f ↦ event.id ∈ f.sourceEventIds :=
    filter_filter_of_imp fun f hf hid ↦
      visible_of_eq he ((ho.facts f hf).sources event.id (of_decide_eq_true hid)).symm
  rw [indexTouchedFacts, indexTouchedFacts]
  simp only [htouched]
  split
  · rfl
  · exact (indexEvent_only _ _ _).symm

theorem embedEvents_only (events : List Event) :
    events.foldl (embedEvent env) (db.only keep) =
      (events.foldl (embedEvent env) db).only keep := by
  induction events generalizing db with
  | nil => rfl
  | cons event events ih =>
    have hstep : embedEvent env (db.only keep) event = (embedEvent env db event).only keep := by
      rw [embedEvent, embedEvent]
      split
      · rfl
      · exact (indexEvent_only _ _ _).symm
    rw [List.foldl_cons, List.foldl_cons, hstep, ih]

theorem processEvent_only (hevent : owner event.id = event.scope.projectId)
    (hk : keep event.scope.projectId = true) {state : Db × JobResult} (hu : state.1.UniqueActive)
    (ho : state.1.Owned owner) :
    (processEvent env extract state event).map (Prod.map (Db.only keep) id) =
      processEvent env extract (Prod.map (Db.only keep) id state) event := by
  rw [processEvent, processEvent]
  simp only [Prod.map_fst, Prod.map_snd, existingViews_only ho hevent hk, id]
  cases hraws : extract event (existingViews env state.1 event) with
  | none => rfl
  | some raws =>
    simp only [orRaise, ok_bind]
    split
    · rfl
    · rw [← applyAll_only hevent hk hu ho]
      cases hs : (admitted env event raws).foldlM (applyAdmitted env event)
          (state.1, raws.foldl (countGate env event) state.2) with
      | error e => rfl
      | ok s =>
        have hs' := applyAll_stays hu ho rfl hevent hs
        show Except.ok (Db.only keep (indexTouchedFacts env s.1 event), s.2) =
          Except.ok (indexTouchedFacts env (s.1.only keep) event, s.2)
        rw [indexTouchedFacts_only hs'.owned (hevent ▸ hk)]

theorem jobEvents_only (ho : db.Owned owner) {eventIds : List EventId}
    (hids : ∀ id ∈ eventIds, keep (owner id) = true) (only : Option (List EventId)) :
    jobEvents (db.only keep) eventIds only = jobEvents db eventIds only := by
  rw [jobEvents, jobEvents]
  refine congrArg (fun l : List Event ↦ (l.insertionSort _).filter _) ?_
  exact filter_filter_of_imp fun e he hid ↦
    visible_of_eq (hids e.id (of_decide_eq_true hid)) (ho.events e he).symm

/-- A job reads and writes its project only. -/
theorem processJob_only (hu : db.UniqueActive) (ho : db.Owned owner) {p : String}
    (hk : keep p = true) {eventIds : List EventId} (hids : ∀ id ∈ eventIds, owner id = p)
    (only : Option (List EventId)) :
    processJob env extract (db.only keep) eventIds only =
      (processJob env extract db eventIds only).map (Prod.map (Db.only keep) id) := by
  have hevents : ∀ e ∈ jobEvents db eventIds only, owner e.id = p ∧ e.scope.projectId = p := by
    intro e he
    have hid := hids e.id (mem_jobEvents_id he)
    exact ⟨hid, (ho.events e (mem_jobEvents he)).symm.trans hid⟩
  obtain ⟨hu', ho', -⟩ : db.Stays owner p ((jobEvents db eventIds only).foldl (embedEvent env) db) :=
    embedEvents_stays hu ho fun e he ↦ (hevents e he).1
  rw [processJob, processJob, jobEvents_only ho fun id hid ↦ hids id hid ▸ hk, embedEvents_only]
  symm
  refine foldlM_map_of (I := fun s : Db × JobResult ↦ s.1.UniqueActive ∧ s.1.Owned owner)
    (fun s e he hI ↦ ?_) (fun s e he s' hI hs ↦ ?_) ?_
  · obtain ⟨hid, hproject⟩ := hevents e he
    exact processEvent_only (hid.trans hproject.symm) (hproject ▸ hk) hI.1 hI.2
  · obtain ⟨hid, hproject⟩ := hevents e he
    have hstays := processEvent_stays hI.1 hI.2 hproject hid hs
    exact ⟨hstays.unique, hstays.owned⟩
  · exact ⟨hu', ho'⟩

end

end Haki
