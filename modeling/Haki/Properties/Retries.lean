import Haki.Properties.Delivery
import Haki.Properties.Intake
import Haki.Sample
import Haki.Sdk.Client

/-!
# Sending a request again

A capture finds the events of its first execution and a `forget` finds its
facts where it left them, so both leave the rows as they are when they are sent
again.  Feedback is stored again, a resolved conflict set is not open any more,
and a poll that consumed its session does not find it.  The answer of the first
execution is given again only where that execution changed nothing.
-/

namespace Haki

open Data Control

/-! ## Captures -/

section Capture

variable {hash : EventContent → String} {batchKey : Option String} {store : EventStore}
  {events : List EventIn}

namespace EventStore

/-- A batch that is stored is not inserted. -/
theorem insertAll_eq_self (h : ∀ e ∈ events, store.Has (e.eventKey hash batchKey)) :
    store.insertAll hash batchKey events = store := by
  induction events with
  | nil => rfl
  | cons e events ih =>
    obtain ⟨he, hevents⟩ := List.forall_mem_cons.mp h
    have hsame : store.insert hash batchKey e = store := dif_pos he
    rw [insertAll, List.foldl_cons, hsame]
    exact ih hevents

/-- A batch that is stored inserts no row. -/
theorem returning_eq_nil (h : ∀ e ∈ events, store.Has (e.eventKey hash batchKey)) :
    store.returning hash batchKey events = [] := by
  rw [returning, insertAll_eq_self h, List.drop_length]

/-- A batch that is stored finds the row of every event, as a duplicate. -/
theorem writeEvents_of_has (h : ∀ e ∈ events, store.Has (e.eventKey hash batchKey)) :
    store.writeEvents hash batchKey events =
      (events.filterMap fun e ↦ store.find? (e.eventKey hash batchKey)).map fun row ↦
        (row, true) := by
  rw [writeEvents, insertAll_eq_self h, returning_eq_nil h]
  rw [List.map_filterMap]
  simp

/-- The rows of a batch that is written. -/
theorem map_fst_writeEvents : (store.writeEvents hash batchKey events).map Prod.fst =
    events.filterMap fun e ↦ (store.insertAll hash batchKey events).find?
      (e.eventKey hash batchKey) := by
  rw [writeEvents, List.map_filterMap]
  congr 1
  funext e
  rw [Option.map_map]
  exact Option.map_id'

/-- Every event of a batch was stored before exactly when no result is flagged as new. -/
theorem has_iff_flags : (∀ e ∈ events, store.Has (e.eventKey hash batchKey)) ↔
    ∀ r ∈ store.writeEvents hash batchKey events, r.2 = true := by
  constructor
  · intro h r hr
    rw [writeEvents_of_has h] at hr
    obtain ⟨row, -, rfl⟩ := List.mem_map.mp hr
    rfl
  · intro h e he
    by_contra hnew
    obtain ⟨row, hrow⟩ := exists_rowOf hash batchKey store he
    have hflag := h (row, decide (idempotencyKeyOf hash batchKey e ∉
      insertedKeys hash batchKey store events)) (List.mem_filterMap.mpr ⟨e, he, by
        rw [rowOf] at hrow
        rw [hrow]
        rfl⟩)
    exact of_decide_eq_true hflag (mem_insertedKeys he hnew)

end EventStore

variable {now now' : Timestamp} {freeMonthlyCredits : Int} {s s' : CaptureState}
  {response : CaptureResponse}

/-- The answer of a capture whose events are stored: the same events, all duplicates, and no
job. -/
def CaptureResponse.duplicated (response : CaptureResponse) : CaptureResponse :=
  ⟨response.events.map fun e ↦ (e.1, true), none⟩

/-- Duplicates are not charged. -/
theorem charge_duplicates {accounts : String → Option Account} {rows : List EventRow} :
    (rows.map fun row ↦ (row, true)).foldlM (chargeEvent now freeMonthlyCredits) accounts =
      .ok accounts := by
  induction rows with
  | nil => rfl
  | cons row rows ih =>
    rw [List.map_cons, List.foldlM_cons, chargeEvent, if_pos rfl]
    exact ih

/-- A capture that is sent again changes nothing, and reports every event as a duplicate. -/
theorem capture_again
    (h : capture hash now freeMonthlyCredits batchKey events s = .ok (response, s')) :
    capture hash now' freeMonthlyCredits batchKey events s' = .ok (response.duplicated, s') := by
  rw [capture] at h
  split at h
  · cases h
  next hscope =>
    obtain ⟨accounts, -, h⟩ := bind_eq_ok.mp h
    obtain ⟨rfl, rfl⟩ := Prod.mk.inj (Except.ok.inj h)
    have hstored := (s.events.inserted hash batchKey events).stored
    rw [capture, hscope]
    dsimp only
    rw [EventStore.writeEvents_of_has hstored, charge_duplicates,
      EventStore.insertAll_eq_self hstored, ← EventStore.map_fst_writeEvents]
    simp only [List.map_map, List.filter_map, CaptureResponse.duplicated]
    simp [Function.comp_def, Except.mapError, pure, Except.pure]

/-- The events of a capture are stored after it. -/
theorem capture_stored
    (h : capture hash now freeMonthlyCredits batchKey events s = .ok (response, s')) :
    ∀ e ∈ events, s'.events.Has (e.eventKey hash batchKey) := by
  rw [capture] at h
  split at h
  · cases h
  · obtain ⟨accounts, -, h⟩ := bind_eq_ok.mp h
    obtain ⟨-, rfl⟩ := Prod.mk.inj (Except.ok.inj h)
    exact (s.events.inserted hash batchKey events).stored

/-- A batch that is stored writes no columns. -/
theorem insertedColumns_of_has {events : List SdkEvent} {columns : EventId → EventColumns}
    (h : ∀ e ∈ events.map SdkEvent.toEventIn, store.Has (e.eventKey hash batchKey)) :
    insertedColumns hash batchKey store events columns = columns := by
  funext id
  rw [insertedColumns, EventStore.returning_eq_nil h]
  rfl

/-- A capture reports duplicates only exactly when every event was stored before. -/
theorem duplicated_eq_self_iff
    (h : capture hash now freeMonthlyCredits batchKey events s = .ok (response, s')) :
    response.duplicated = response ↔
      ∀ e ∈ events, s.events.Has (e.eventKey hash batchKey) := by
  rw [capture] at h
  split at h
  · cases h
  · obtain ⟨accounts, -, h⟩ := bind_eq_ok.mp h
    obtain ⟨rfl, rfl⟩ := Prod.mk.inj (Except.ok.inj h)
    rw [EventStore.has_iff_flags]
    generalize s.events.writeEvents hash batchKey events = results
    constructor
    · intro heq r hr
      have hevents : (results.map fun r ↦ (r.1.id, r.2)).map (fun e ↦ (e.1, true)) =
        results.map fun r ↦ (r.1.id, r.2) := congrArg CaptureResponse.events heq
      have hmem : (r.1.id, r.2) ∈ results.map fun r ↦ (r.1.id, r.2) := List.mem_map_of_mem hr
      rw [← hevents] at hmem
      obtain ⟨e, -, he⟩ := List.mem_map.mp hmem
      exact (congrArg Prod.snd he).symm
    · intro hall
      have hnone : results.filter (fun r ↦ !r.2) = [] :=
        List.filter_eq_nil_iff.mpr fun r hr ↦ by simp [hall r hr]
      rw [CaptureResponse.duplicated, hnone]
      simp only [List.map_map, List.map_nil, if_pos, CaptureResponse.mk.injEq, and_true]
      exact List.map_congr_left fun r hr ↦ by simp [hall r hr]

end Capture

/-! ## Aliases -/

section Aliases

variable {aliases aliases' later : Table SubjectAlias}

/-- An alias that is found in one table is found in the other. -/
def Extends (aliases later : Table SubjectAlias) : Prop :=
  ∀ k row, aliases.get? k = some row → later.get? k = some row

theorem captureSubject_extends {scope : Scope} {subjectAlias : Option (String × String)}
    {subjectId : String}
    (h : captureSubject aliases scope subjectAlias = .ok (subjectId, aliases')) :
    Extends aliases aliases' ∧ ∀ later, Extends aliases' later →
      captureSubject later scope subjectAlias = .ok (subjectId, later) := by
  cases subjectAlias with
  | none =>
    obtain ⟨rfl, rfl⟩ := Prod.mk.inj (Except.ok.inj h)
    exact ⟨fun _ _ ↦ id, fun _ _ ↦ rfl⟩
  | some identity =>
    obtain ⟨kind, value⟩ := identity
    obtain ⟨⟨row, created, aliases₁⟩, hresolve, h⟩ := bind_eq_ok.mp h
    obtain ⟨rfl, rfl⟩ := Prod.mk.inj (Except.ok.inj h)
    have hfound {row : SubjectAlias} {later : Table SubjectAlias}
        (hrow : later.get? (scope.projectId, kind, value) = some row) :
        captureSubject later scope (some (kind, value)) = .ok (row.canonicalSubjectId, later) := by
      simp [captureSubject, resolveAlias, hrow, pure, Except.pure]
    rw [resolveAlias] at hresolve
    split at hresolve
    next row hrow =>
      rw [if_neg (by simp)] at hresolve
      cases hresolve
      exact ⟨fun _ _ ↦ id, fun later hlater ↦ hfound (hlater _ _ hrow)⟩
    next hmissing =>
      rw [if_pos rfl] at hresolve
      dsimp only at hresolve
      split at hresolve
      · cases hresolve
      · cases hresolve
        have hfresh : aliases.Fresh ⟨scope.projectId, kind, value,
            selfRegistration kind value⟩ := Table.get?_eq_none_iff.mp hmissing
        refine ⟨fun k row hrow ↦ ?_, fun later hlater ↦ hfound (hlater _ _ ?_)⟩
        · refine (Table.get?_insert hfresh k).trans ((if_neg ?_).trans hrow)
          rintro rfl
          exact absurd (hmissing.symm.trans hrow) (by simp)
        · exact (Table.get?_insert hfresh _).trans (if_pos rfl)

theorem SdkEvent.resolve_extends {event resolved : SdkEvent}
    (h : event.resolve aliases = .ok (resolved, aliases')) :
    Extends aliases aliases' ∧ ∀ later, Extends aliases' later →
      event.resolve later = .ok (resolved, later) := by
  obtain ⟨⟨subjectId, aliases₁⟩, hsubject, h⟩ := bind_eq_ok.mp h
  obtain ⟨rfl, rfl⟩ := Prod.mk.inj (Except.ok.inj h)
  obtain ⟨hext, hagain⟩ := captureSubject_extends hsubject
  refine ⟨hext, fun later hlater ↦ ?_⟩
  rw [resolve, hagain later hlater]
  rfl

/-- A batch that is resolved again is resolved to the same subjects. -/
theorem resolveEvents_extends {events resolved : List SdkEvent}
    (h : resolveEvents aliases events = .ok (resolved, aliases')) :
    Extends aliases aliases' ∧ ∀ later, Extends aliases' later →
      resolveEvents later events = .ok (resolved, later) := by
  induction events generalizing aliases resolved with
  | nil =>
    obtain ⟨rfl, rfl⟩ := Prod.mk.inj (Except.ok.inj h)
    exact ⟨fun _ _ ↦ id, fun _ _ ↦ rfl⟩
  | cons event events ih =>
    obtain ⟨⟨first, aliases₁⟩, hfirst, h⟩ := bind_eq_ok.mp h
    obtain ⟨⟨rest, aliases₂⟩, hrest, h⟩ := bind_eq_ok.mp h
    obtain ⟨rfl, rfl⟩ := Prod.mk.inj (Except.ok.inj h)
    obtain ⟨hext, hagain⟩ := event.resolve_extends hfirst
    obtain ⟨hext', hagain'⟩ := ih hrest
    refine ⟨fun k row hrow ↦ hext' k row (hext k row hrow), fun later hlater ↦ ?_⟩
    rw [resolveEvents, hagain later fun k row hrow ↦ hlater k row (hext' k row hrow), ok_bind]
    dsimp only
    rw [hagain' later hlater]
    rfl

/-- A batch that is sent again is resolved to the same subjects, and registers no alias. -/
theorem resolveEvents_again {events resolved : List SdkEvent}
    (h : resolveEvents aliases events = .ok (resolved, aliases')) :
    resolveEvents aliases' events = .ok (resolved, aliases') :=
  (resolveEvents_extends h).2 aliases' fun _ _ ↦ id

end Aliases

/-! ## Forgetting -/

section Forget

variable {now now' : Timestamp} {db db' : Db} {projectId : String} {id : FactId}
  {mode : ForgetMode} {scope : Scope} {m m' : Memory}

/-- A forgotten fact has its status. -/
theorem forgetFact_status (h : forgetFact now db projectId id mode = .ok db') :
    ∃ f, db'.fact? id = some f ∧ f.scope.projectId = projectId ∧ f.status = mode.target := by
  obtain ⟨f, hf, h⟩ := bind_eq_ok.mp h
  obtain ⟨hf, hproject⟩ := getProjectFact_eq_ok hf
  split at h
  next hstatus =>
    cases h
    exact ⟨f, hf, hproject, hstatus⟩
  next =>
    obtain ⟨db₁, h₁, h⟩ := bind_eq_ok.mp h
    obtain ⟨-, -, -, rfl, -⟩ := transitionFactStatus_eq_ok h₁
    have hmoved : (db.updateFact id (·.moveTo mode.target now)).fact? id =
        some (f.moveTo mode.target now) := by
      rw [Db.fact?_updateFact (Fact.moveTo_id · _ now), if_pos rfl, hf, Option.map_some]
    cases h
    split
    · refine ⟨(f.moveTo mode.target now).purgeAxes, ?_, hproject, rfl⟩
      rw [Db.fact?_updateFact Fact.purgeAxes_id, if_pos rfl, hmoved, Option.map_some]
    · exact ⟨_, hmoved, hproject, rfl⟩

/-- A fact that is forgotten again stays as it is. -/
theorem forgetFact_again (h : forgetFact now db projectId id mode = .ok db') :
    forgetFact now' db' projectId id mode = .ok db' := by
  obtain ⟨f, hf, hproject, hstatus⟩ := forgetFact_status h
  have hfound : getProjectFact db' projectId id = .ok f := by
    rw [getProjectFact, getFact_eq_ok.mpr hf, ok_bind, if_pos hproject]
    rfl
  rw [forgetFact, hfound, ok_bind, if_pos hstatus]
  rfl

/-- What a run of disabling makes of a fact. -/
theorem disable_run {ids : List FactId}
    (h : ids.foldlM (fun db id ↦ transitionFactStatus now db id .disabled) db = .ok db') {f' : Fact}
    (hf' : f' ∈ db'.facts) :
    f'.status = .disabled ∨ f' ∈ db.facts ∧ f'.id ∉ ids := by
  induction ids generalizing db with
  | nil =>
    obtain rfl := foldlM_nil_eq_ok.mp h
    exact .inr ⟨hf', List.not_mem_nil⟩
  | cons id ids ih =>
    obtain ⟨db₁, h₁, h⟩ := foldlM_cons_eq_ok.mp h
    obtain ⟨-, -, -, rfl, -⟩ := transitionFactStatus_eq_ok h₁
    rcases ih h with hdisabled | ⟨hmem, hid⟩
    · exact .inl hdisabled
    · obtain ⟨f, hf, rfl⟩ := (Db.mem_updateFact (Fact.moveTo_id · _ now)).mp hmem
      split
      · exact .inl rfl
      next hne =>
        rw [if_neg hne] at hid
        exact .inr ⟨hf, fun h ↦ (List.mem_cons.mp h).elim hne hid⟩

/-- A subject that is disabled again stays as it is. -/
theorem disableSubject_again (h : disableSubject now db scope = .ok db') :
    disableSubject now' db' scope = .ok db' := by
  have hnone : (db'.facts.rows.filter fun f ↦
      f.scope = scope ∧ (f.status = .active ∨ f.status = .candidate)) = [] := by
    refine List.filter_eq_nil_iff.mpr fun f' hf' hlive ↦ ?_
    have hlive := of_decide_eq_true hlive
    rcases disable_run h hf' with hdisabled | ⟨hmem, hid⟩
    · rw [hdisabled] at hlive
      rcases hlive.2 with hstatus | hstatus <;> cases hstatus
    · exact hid (List.mem_map_of_mem (List.mem_filter.mpr ⟨hmem, decide_eq_true hlive⟩))
  rw [disableSubject, hnone]
  rfl

/-- The tables a deletion clears have no row of a subject. -/
structure Memory.Cleared (m : Memory) (scope : Scope) : Prop where
  events : ∀ e ∈ m.ledger.events, e.scope ≠ scope
  facts : ∀ f ∈ m.ledger.facts, f.scope ≠ scope
  conflictSets : ∀ s ∈ m.ledger.conflictSets, s.scope ≠ scope
  predicateAliases : ∀ a ∈ m.ledger.predicateAliases, a.scope ≠ scope
  contextTraces : ∀ t ∈ m.ledger.contextTraces, t.scope ≠ scope
  subjectAliases : ∀ a ∈ m.subjectAliases,
    ¬ (a.projectId = scope.projectId ∧ a.canonicalSubjectId = scope.subjectId)

theorem Memory.cleared_deleteSubject (m : Memory) (scope : Scope) :
    (m.deleteSubject scope).Cleared scope where
  events _ he := of_decide_eq_true (Table.mem_filter.mp he).2
  facts _ hf := of_decide_eq_true (Table.mem_filter.mp hf).2
  conflictSets _ hs := of_decide_eq_true (Table.mem_filter.mp hs).2
  predicateAliases _ ha := of_decide_eq_true (Table.mem_filter.mp ha).2
  contextTraces _ ht := of_decide_eq_true (List.mem_filter.mp ht).2
  subjectAliases _ ha := of_decide_eq_true (Table.mem_filter.mp ha).2

/-- A subject of which nothing is left is deleted in vain. -/
theorem Memory.Cleared.deleteSubject_eq_self (h : m.Cleared scope) : m.deleteSubject scope = m := by
  have hfeedback (row : Feedback) : ¬ m.OnFactOf scope row := by
    rintro ⟨id, -, f, hf, -, hscope⟩
    exact h.facts f hf hscope
  have hledger : Haki.deleteSubject m.ledger scope = m.ledger := by
    simp only [Haki.deleteSubject]
    rw [Table.filter_eq_self fun e he ↦ decide_eq_true (h.events e he),
      Table.filter_eq_self fun f hf ↦ decide_eq_true (h.facts f hf),
      Table.filter_eq_self fun s hs ↦ decide_eq_true (h.conflictSets s hs),
      Table.filter_eq_self fun a ha ↦ decide_eq_true (h.predicateAliases a ha),
      List.filter_eq_self.mpr fun t ht ↦ decide_eq_true (h.contextTraces t ht)]
  have hchunks : (m.episodeChunks.filter fun c ↦
      ¬ ∃ e ∈ m.ledger.events, e.id = c.id.event ∧ e.scope = scope) = m.episodeChunks := by
    refine Table.filter_eq_self fun c _ ↦ decide_eq_true ?_
    rintro ⟨e, he, -, hscope⟩
    exact h.events e he hscope
  rw [Memory.deleteSubject, hledger, hchunks,
    Table.filter_eq_self fun a ha ↦ decide_eq_true (h.subjectAliases a ha)]
  simp [hfeedback]

/-- What is forgotten again stays as it is. -/
theorem Memory.forget_again {target : ForgetTarget} {counters : ForgetCounters}
    (h : m.forget now projectId mode target = .ok (counters, m')) :
    ∃ counters', m'.forget now' projectId mode target = .ok (counters', m') := by
  cases target with
  | fact id =>
    obtain ⟨ledger, hledger, h⟩ := bind_eq_ok.mp h
    obtain ⟨-, rfl⟩ := Prod.mk.inj (Except.ok.inj h)
    refine ⟨Memory.forgetFactCounters { m with ledger := ledger } id mode, ?_⟩
    rw [forget, forgetFact_again (mapError_eq_ok.mp hledger)]
    rfl
  | subject subjectId =>
    obtain ⟨m₁, hm, h⟩ := bind_eq_ok.mp h
    obtain ⟨-, rfl⟩ := Prod.mk.inj (Except.ok.inj h)
    refine ⟨m₁.forgetSubjectCounters ⟨projectId, subjectId⟩ mode, ?_⟩
    cases mode with
    | disable =>
      obtain ⟨ledger, hledger, hm⟩ := bind_eq_ok.mp hm
      obtain rfl := Except.ok.inj hm
      rw [forget, forgetSubject, disableSubject_again (mapError_eq_ok.mp hledger)]
      rfl
    | delete =>
      obtain rfl := Except.ok.inj hm
      rw [forget, forgetSubject, (m.cleared_deleteSubject _).deleteSubject_eq_self]
      rfl

end Forget

/-! ## The tables of the server -/

section Tables

variable {now : Timestamp} {projectId : String} {mode : ForgetMode} {target : ForgetTarget}
  {counters : ForgetCounters} {m m' : Memory} {s : Server} {store : EventStore}
  {columns : EventId → EventColumns}

/-- The events are those that satisfy some condition. -/
def Memory.KeepsSomeEvents (m m' : Memory) : Prop :=
  ∃ p, m'.ledger.events = m.ledger.events.filter p

theorem Memory.KeepsSomeEvents.of_eq (h : m'.ledger.events = m.ledger.events) :
    m.KeepsSomeEvents m' :=
  ⟨fun _ ↦ true, by rw [h, Table.filter_eq_self fun _ _ ↦ rfl]⟩

/-- Forgetting adds no event. -/
theorem Memory.forget_events (h : m.forget now projectId mode target = .ok (counters, m')) :
    m.KeepsSomeEvents m' := by
  cases target with
  | fact id =>
    obtain ⟨ledger, hledger, h⟩ := bind_eq_ok.mp h
    obtain ⟨-, rfl⟩ := Prod.mk.inj (Except.ok.inj h)
    rcases forgetFact_eq_ok (mapError_eq_ok.mp hledger) with rfl | ⟨-, rfl⟩ <;> exact .of_eq rfl
  | subject subjectId =>
    obtain ⟨m₁, hm, h⟩ := bind_eq_ok.mp h
    obtain ⟨-, rfl⟩ := Prod.mk.inj (Except.ok.inj h)
    cases mode with
    | disable =>
      obtain ⟨ledger, hledger, hm⟩ := bind_eq_ok.mp hm
      obtain rfl := Except.ok.inj hm
      refine .of_eq (foldlM_preserves (I := fun db ↦ db.events = m.ledger.events)
        (fun db id db' hI h ↦ ?_) rfl (mapError_eq_ok.mp hledger))
      obtain ⟨-, -, -, rfl, -⟩ := transitionFactStatus_eq_ok h
      exact hI
    | delete =>
      obtain rfl := Except.ok.inj hm
      exact ⟨_, rfl⟩

namespace EventStore

/-- An event of the table is the row with its id. -/
theorem mem_table {e : Event} :
    e ∈ store.table columns ↔ ∃ row ∈ store.rows, row.event (columns row.id) = e :=
  List.mem_map

/-- Keeping the rows of the events that satisfy `p` keeps those events. -/
theorem table_filter (p : Event → Bool) :
    (store.filter fun row ↦ ∃ e ∈ (store.table columns).filter p, e.id = row.id).table columns =
      (store.table columns).filter p := by
  refine Table.ext ?_
  refine Eq.trans ?_ (List.filter_map ..).symm
  refine congrArg (List.map _) (List.filter_congr fun row hrow ↦ ?_)
  rw [Function.comp_apply, Bool.eq_iff_iff, decide_eq_true_iff]
  constructor
  · rintro ⟨e, he, hid⟩
    obtain ⟨he, hp⟩ := Table.mem_filter.mp he
    have hmem : row.event (columns row.id) ∈ store.table columns := mem_table.mpr ⟨row, hrow, rfl⟩
    rwa [Table.eq_of_key_eq hmem he hid.symm]
  · intro hp
    exact ⟨_, Table.mem_filter.mpr ⟨mem_table.mpr ⟨row, hrow, rfl⟩, hp⟩, rfl⟩

/-- Keeping the rows of all events keeps all rows. -/
theorem filter_table :
    (store.filter fun row ↦ ∃ e ∈ store.table columns, e.id = row.id) = store := by
  have hrows : store.rows.filter (fun row ↦ ∃ e ∈ store.table columns, e.id = row.id) =
      store.rows :=
    List.filter_eq_self.mpr fun row hrow ↦
      decide_eq_true ⟨_, mem_table.mpr ⟨row, hrow, rfl⟩, rfl⟩
  cases store
  simp only [filter, EventStore.mk.injEq, and_true]
  exact hrows

end EventStore

namespace Server

theorem memory_withMemory (h : s.memory.KeepsSomeEvents m) : (s.withMemory m).memory = m := by
  obtain ⟨p, hp⟩ := h
  have hevents : (s.withMemory m).memory.ledger.events = m.ledger.events :=
    calc (s.withMemory m).memory.ledger.events
      _ = (s.intake.events.filter fun row ↦ ∃ e ∈ m.ledger.events, e.id = row.id).table
          s.columns := rfl
      _ = (s.intake.events.table s.columns).filter p := by
        rw [hp]
        exact EventStore.table_filter p
      _ = m.ledger.events := hp.symm
  calc (s.withMemory m).memory
    _ = { m with ledger := { m.ledger with events := (s.withMemory m).memory.ledger.events } } := rfl
    _ = m := by rw [hevents]

theorem withMemory_eq_self (h : s.memory = m) : s.withMemory m = s := by
  subst h
  have hevents : (s.intake.events.filter fun row ↦ ∃ e ∈ s.memory.ledger.events, e.id = row.id) =
    s.intake.events := EventStore.filter_table
  rw [withMemory, hevents]
  rfl

end Server

end Tables

/-! ## Requests -/

/-- The facts, conflict sets, events, credits and feedback rows are the same. -/
structure Server.SameRows (s s' : Server) : Prop where
  facts : s'.facts = s.facts
  conflictSets : s'.conflictSets = s.conflictSets
  events : s'.intake.events = s.intake.events
  columns : s'.columns = s.columns
  credits : s'.intake.accounts = s.intake.accounts
  feedback : s'.feedback = s.feedback

/-- There is a session of the device code that is waiting for its approval. -/
def DeviceStore.Pending (s : DeviceStore) (deviceCode : String) : Prop :=
  ∃ entry ∈ s.devices deviceCode, entry.value.credentials = none ∧ s.clock < entry.value.expiresAt

instance (s : DeviceStore) (deviceCode : String) : Decidable (s.Pending deviceCode) :=
  inferInstanceAs (Decidable (∃ entry ∈ s.devices deviceCode, _))

namespace SdkRequest

/-- A request that can be sent again at a time, when it was executed at another: a poll finds a
session that was waiting until its key is evicted. -/
def Repeatable (now now' : Timestamp) (s : Server) : SdkRequest → Prop
  | .capture .. | .forget .. => True
  | .feedback .. | .resolveConflict .. => False
  | .cliDevicePoll deviceCode =>
    (s.devicesAt now).Pending deviceCode ∧ (s.devicesAt now').devices deviceCode ≠ none

/-- A request that is answered in the same way when it is sent again: a capture of stored events,
and a poll of a session that is still waiting. -/
def AnsweredAgain (hash : EventContent → String) (now now' : Timestamp) (s : Server) :
    SdkRequest → Prop
  | .capture events key => ∃ resolved ∈ (resolveEvents s.subjectAliases events).toOption,
    ∀ e ∈ resolved.1, s.intake.events.Has (e.eventKey hash key)
  | .forget .. | .feedback .. | .resolveConflict .. => False
  | .cliDevicePoll deviceCode =>
    (s.devicesAt now).Pending deviceCode ∧ (s.devicesAt now').Pending deviceCode

end SdkRequest

section Execute

variable {hash : EventContent → String} {freeMonthlyCredits : Int} {now now' : Timestamp}
  {s s' s'' : Server} {request : SdkRequest} {response again : SdkResponse}

/-- A request succeeds, and leaves the rows as they are. -/
def Server.Repeats (hash : EventContent → String) (freeMonthlyCredits : Int) (now : Timestamp)
    (s : Server) (request : SdkRequest) (again : SdkResponse) : Prop :=
  ∃ s', s.execute hash freeMonthlyCredits now request = .ok (again, s') ∧ s.SameRows s'

namespace Server

/-- A capture that is sent again changes nothing. -/
theorem capture_execute_again (now' : Timestamp) {events : List SdkEvent} {key : Option String}
    (h : s.execute hash freeMonthlyCredits now (.capture events key) = .ok (response, s')) :
    ∃ first resolved aliases, response = .captured first ∧
      resolveEvents s.subjectAliases events = .ok (resolved, aliases) ∧
      (first.duplicated = first ↔ ∀ e ∈ resolved, s.intake.events.Has (e.eventKey hash key)) ∧
      s'.execute hash freeMonthlyCredits now' (.capture events key) =
        .ok (.captured first.duplicated, s') := by
  obtain ⟨⟨resolved, aliases⟩, hresolve, h⟩ := bind_eq_ok.mp h
  obtain ⟨⟨first, intake⟩, hcapture, h⟩ := bind_eq_ok.mp h
  obtain ⟨rfl, rfl⟩ := Prod.mk.inj (Except.ok.inj h)
  have hresolve := mapError_eq_ok.mp hresolve
  have hcapture := mapError_eq_ok.mp hcapture
  refine ⟨first, resolved, aliases, rfl, hresolve, ?_, ?_⟩
  · rw [duplicated_eq_self_iff hcapture, List.forall_mem_map]
  · refine bind_eq_ok.mpr ⟨_, mapError_eq_ok.mpr (resolveEvents_again hresolve),
      bind_eq_ok.mpr ⟨_, mapError_eq_ok.mpr (capture_again hcapture), ?_⟩⟩
    dsimp only
    rw [insertedColumns_of_has (capture_stored hcapture)]
    rfl

/-- A request to forget that is sent again changes no table. -/
theorem forget_execute_again (now' : Timestamp) {projectId : String} {mode : ForgetMode}
    {target : ForgetTarget}
    (h : s.execute hash freeMonthlyCredits now (.forget projectId mode target) =
      .ok (response, s')) :
    ∃ counters, response = .forgotten s.nextId mode target counters ∧
      ∃ counters' s'', s'.execute hash freeMonthlyCredits now' (.forget projectId mode target) =
        .ok (.forgotten (s.nextId + 1) mode target counters', s'') ∧ s'.SameRows s'' := by
  obtain ⟨⟨counters, m⟩, hforget, h⟩ := bind_eq_ok.mp h
  obtain ⟨rfl, rfl⟩ := Prod.mk.inj (Except.ok.inj h)
  have hforget := mapError_eq_ok.mp hforget
  generalize hs : ({ s.withMemory m with
    forgetReceipts := s.forgetReceipts ++ [⟨s.nextId, projectId, mode, target, counters⟩]
    nextId := s.nextId + 1 } : Server) = s₁
  have hmemory : s₁.memory = m := hs ▸ memory_withMemory (Memory.forget_events hforget)
  have hnext : s₁.nextId = s.nextId + 1 := hs ▸ rfl
  obtain ⟨counters', hagain⟩ : ∃ counters', m.forget now' projectId mode target =
    .ok (counters', m) := Memory.forget_again hforget
  rw [← hmemory] at hagain
  have hexecute : s₁.execute hash freeMonthlyCredits now' (.forget projectId mode target) =
      .ok (.forgotten s₁.nextId mode target counters', { s₁ with
        forgetReceipts :=
          s₁.forgetReceipts ++ [⟨s₁.nextId, projectId, mode, target, counters'⟩]
        nextId := s₁.nextId + 1 }) := by
    refine bind_eq_ok.mpr ⟨_, mapError_eq_ok.mpr hagain, ?_⟩
    dsimp only
    rw [withMemory_eq_self rfl]
    rfl
  rw [hnext] at hexecute
  exact ⟨counters, rfl, counters', _, hexecute, ⟨rfl, rfl, rfl, rfl, rfl, rfl⟩⟩

/-- Feedback that is sent again is stored again. -/
theorem feedback_execute {projectId : String} {rating : Rating} {target : FeedbackTarget}
    (h : s.execute hash freeMonthlyCredits now (.feedback projectId rating target) =
      .ok (response, s')) :
    s'.feedback = s.feedback ++ [.of projectId rating target] := by
  obtain ⟨m, hfeedback, h⟩ := bind_eq_ok.mp h
  obtain ⟨rfl, rfl⟩ := Prod.mk.inj (Except.ok.inj h)
  obtain ⟨ledger, -, hm⟩ := bind_eq_ok.mp (mapError_eq_ok.mp hfeedback)
  obtain rfl := Except.ok.inj hm
  rfl

theorem conflictSet?_updateConflictSet {db : Db} {id : ConflictId} {g : ConflictSet → ConflictSet}
    (hg : ∀ set, (g set).id = set.id) :
    (db.updateConflictSet id g).conflictSet? id = (db.conflictSet? id).map g :=
  (Table.get?_update (fun set _ ↦ hg set) _ _).trans (if_pos rfl)

/-- A conflict set that was resolved is not resolved again. -/
theorem resolve_execute_again {id : ConflictId} {projectId : String} {keep : FactId}
    (h : s.execute hash freeMonthlyCredits now (.resolveConflict id projectId keep) =
      .ok (response, s')) :
    s'.execute hash freeMonthlyCredits now' (.resolveConflict id projectId keep) ≠
      .ok (again, s'') := by
  intro hagain
  obtain ⟨ledger, hresolve, h⟩ := bind_eq_ok.mp h
  obtain ⟨rfl, rfl⟩ := Prod.mk.inj (Except.ok.inj h)
  obtain ⟨ledger', hresolve', -⟩ := bind_eq_ok.mp hagain
  obtain ⟨conflict, db₁, -, -, -, -, rfl⟩ := resolveConflict_eq_ok (mapError_eq_ok.mp hresolve)
  obtain ⟨conflict', -, hset, hopen, -⟩ := resolveConflict_eq_ok (mapError_eq_ok.mp hresolve')
  have hmap : (db₁.conflictSet? id).map (·.resolve now) = some conflict' :=
    (conflictSet?_updateConflictSet fun s ↦ s.resolve_id now).symm.trans hset
  obtain ⟨set, -, rfl⟩ := Option.map_eq_some_iff.mp hmap
  cases hopen

theorem poll_execute_eq_ok {deviceCode : String} :
    s.execute hash freeMonthlyCredits now (.cliDevicePoll deviceCode) = .ok (response, s') ↔
      ((s.devicesAt now).devicePoll deviceCode).1 ≠ .notFound ∧
        response = .polled ((s.devicesAt now).devicePoll deviceCode).1 ∧
        s' = { s with devices := ((s.devicesAt now).devicePoll deviceCode).2 } := by
  rw [execute]
  rcases (s.devicesAt now).devicePoll deviceCode with ⟨answer, devices⟩
  cases answer <;> simp [eq_comm]

/-- A poll of a session that is waiting leaves it, and no other poll leaves one. -/
theorem devicePoll_cases (devices : DeviceStore) (deviceCode : String) :
    devices.Pending deviceCode ∧ devices.devicePoll deviceCode = (.pending, devices) ∨
      ¬ devices.Pending deviceCode ∧
        (devices.devicePoll deviceCode).1 ≠ .pending ∧
        (devices.devicePoll deviceCode).2.devices deviceCode = none := by
  cases hdevice : devices.devices deviceCode with
  | none => exact .inr (by simp [DeviceStore.Pending, DeviceStore.devicePoll, hdevice])
  | some entry =>
    cases happroved : entry.value.credentials with
    | some credentials =>
      refine .inr ?_
      simp [DeviceStore.Pending, DeviceStore.devicePoll, hdevice, happroved, DeviceStore.setDevice]
    | none =>
      by_cases hlate : entry.value.expiresAt ≤ devices.clock
      · refine .inr ?_
        simp [DeviceStore.Pending, DeviceStore.devicePoll, hdevice, happroved, hlate,
          DeviceStore.setDevice]
      · refine .inl ⟨⟨entry, hdevice, happroved, not_le.mp hlate⟩, ?_⟩
        simp [DeviceStore.devicePoll, hdevice, happroved, hlate]

/-- A poll finds a session exactly when there is one. -/
theorem devicePoll_notFound_iff (devices : DeviceStore) (deviceCode : String) :
    (devices.devicePoll deviceCode).1 = .notFound ↔ devices.devices deviceCode = none := by
  rw [DeviceStore.devicePoll]
  cases devices.devices deviceCode with
  | none => simp
  | some entry =>
    dsimp only
    split
    · simp
    · split <;> simp

/-- A poll is answered when there is a session, and touches no row. -/
theorem poll_repeats_iff {deviceCode : String} :
    s.Repeats hash freeMonthlyCredits now (.cliDevicePoll deviceCode) again ↔
      (s.devicesAt now).devices deviceCode ≠ none ∧
        again = .polled ((s.devicesAt now).devicePoll deviceCode).1 := by
  have hfound := (devicePoll_notFound_iff (s.devicesAt now) deviceCode).not
  constructor
  · rintro ⟨s', h, -⟩
    obtain ⟨hanswer, hagain, -⟩ := poll_execute_eq_ok.mp h
    exact ⟨hfound.mp hanswer, hagain⟩
  · rintro ⟨hdevice, hagain⟩
    exact ⟨_, poll_execute_eq_ok.mpr ⟨hfound.mpr hdevice, hagain, rfl⟩,
      ⟨rfl, rfl, rfl, rfl, rfl, rfl⟩⟩

/-- Keys that are evicted stay so. -/
theorem devicesAt_devicesAt {deviceCode : String}
    (hdevice : (s.devicesAt now).devices deviceCode ≠ none) :
    (({ s with devices := s.devicesAt now } : Server).devicesAt now').devices deviceCode =
      (s.devicesAt now').devices deviceCode := by
  obtain ⟨entry, hentry⟩ := Option.ne_none_iff_exists'.mp hdevice
  have hget : s.devices.devices deviceCode = some entry := (Option.filter_eq_some_iff.mp hentry).1
  have hsame : (s.devicesAt now).devices deviceCode = s.devices.devices deviceCode :=
    hentry.trans hget.symm
  exact congrArg (Option.filter _) hsame

/-- A poll can be sent again when its session was waiting and is not evicted; otherwise there is no
session left. -/
theorem poll_execute_again {deviceCode : String}
    (h : s.execute hash freeMonthlyCredits now (.cliDevicePoll deviceCode) = .ok (response, s')) :
    ((∃ again, s'.Repeats hash freeMonthlyCredits now' (.cliDevicePoll deviceCode) again) ↔
        (s.devicesAt now).Pending deviceCode ∧ (s.devicesAt now').devices deviceCode ≠ none) ∧
      (s'.Repeats hash freeMonthlyCredits now' (.cliDevicePoll deviceCode) response ↔
        (s.devicesAt now).Pending deviceCode ∧ (s.devicesAt now').Pending deviceCode) := by
  obtain ⟨-, rfl, rfl⟩ := poll_execute_eq_ok.mp h
  simp only [poll_repeats_iff]
  rcases devicePoll_cases (s.devicesAt now) deviceCode with ⟨hpending, hpoll⟩ | ⟨hnot, -, hnone⟩
  · have hdevice : (s.devicesAt now).devices deviceCode ≠ none := by
      obtain ⟨entry, hentry, -⟩ := hpending
      rw [hentry]
      exact Option.some_ne_none entry
    rw [hpoll]
    generalize hs' : ({ s with devices := s.devicesAt now } : Server) = s'
    have hsame : (s'.devicesAt now').devices deviceCode = (s.devicesAt now').devices deviceCode :=
      hs' ▸ devicesAt_devicesAt hdevice
    have hwaiting : (s'.devicesAt now').Pending deviceCode ↔ (s.devicesAt now').Pending deviceCode := by
      rw [DeviceStore.Pending, hsame]
      rfl
    rw [and_iff_right hpending, and_iff_right hpending, ← hsame, ← hwaiting]
    refine ⟨exists_and_left.trans (and_iff_left ⟨_, rfl⟩), ?_⟩
    rcases devicePoll_cases (s'.devicesAt now') deviceCode with ⟨hagain, hpoll'⟩ | ⟨hagain, hne, -⟩
    · refine iff_of_true ⟨?_, congrArg SdkResponse.polled (congrArg Prod.fst hpoll').symm⟩ hagain
      obtain ⟨entry, hentry, -⟩ := hagain
      rw [hentry]
      exact Option.some_ne_none entry
    · exact iff_of_false (fun heq ↦ hne (SdkResponse.polled.inj heq.2).symm) hagain
  · have hgone : (({ s with devices := ((s.devicesAt now).devicePoll deviceCode).2 } :
        Server).devicesAt now').devices deviceCode = none := congrArg (Option.filter _) hnone
    refine ⟨iff_of_false ?_ fun h ↦ hnot h.1, iff_of_false ?_ fun h ↦ hnot h.1⟩
    · rintro ⟨-, hdevice, -⟩
      exact hdevice hgone
    · rintro ⟨hdevice, -⟩
      exact hdevice hgone

end Server

/-- **Sending a request again** succeeds without another effect exactly for captures, requests to
forget, and polls of a session that was waiting and is still there; and it is answered as the first
time exactly for captures of stored events, and polls of a session that is still waiting. -/
theorem sent_again_iff
    (h : s.execute hash freeMonthlyCredits now request = .ok (response, s')) :
    ((∃ again, s'.Repeats hash freeMonthlyCredits now' request again) ↔
        request.Repeatable now now' s) ∧
      (s'.Repeats hash freeMonthlyCredits now' request response ↔
        request.AnsweredAgain hash now now' s) := by
  cases request with
  | capture events key =>
    obtain ⟨first, resolved, aliases, rfl, hresolve, hsame, hagain⟩ :=
      Server.capture_execute_again now' h
    have hrows : s'.SameRows s' := ⟨rfl, rfl, rfl, rfl, rfl, rfl⟩
    refine ⟨iff_of_true ⟨_, s', hagain, hrows⟩ trivial, ?_⟩
    rw [Server.Repeats, hagain, SdkRequest.AnsweredAgain, hresolve]
    constructor
    · rintro ⟨s'', hresponse, -⟩
      obtain ⟨heq, -⟩ := Prod.mk.inj (Except.ok.inj hresponse)
      exact ⟨_, rfl, hsame.mp (SdkResponse.captured.inj heq)⟩
    · rintro ⟨found, hfound, hstored⟩
      obtain rfl := Option.some.inj hfound
      exact ⟨s', by rw [hsame.mpr hstored], hrows⟩
  | forget projectId mode target =>
    obtain ⟨counters, rfl, counters', s'', hagain, hrows⟩ := Server.forget_execute_again now' h
    refine ⟨iff_of_true ⟨_, s'', hagain, hrows⟩ trivial, iff_of_false ?_ id⟩
    rintro ⟨s₂, hsecond, -⟩
    obtain ⟨heq, -⟩ := Prod.mk.inj (Except.ok.inj (hagain.symm.trans hsecond))
    exact absurd (SdkResponse.forgotten.inj heq).1 (Nat.succ_ne_self _)
  | feedback projectId rating target =>
    have hgrows (again : SdkResponse) :
        ¬ s'.Repeats hash freeMonthlyCredits now' (.feedback projectId rating target) again := by
      rintro ⟨s'', hagain, hrows⟩
      have hfeedback := (Server.feedback_execute hagain).symm.trans hrows.feedback
      exact List.cons_ne_nil _ _ (List.append_right_eq_self.mp hfeedback)
    exact ⟨iff_of_false (fun ⟨again, h⟩ ↦ hgrows again h) id, iff_of_false (hgrows _) id⟩
  | resolveConflict id projectId keep =>
    have hfails (again : SdkResponse) :
        ¬ s'.Repeats hash freeMonthlyCredits now' (.resolveConflict id projectId keep) again :=
      fun ⟨_, hagain, _⟩ ↦ Server.resolve_execute_again h hagain
    exact ⟨iff_of_false (fun ⟨again, h⟩ ↦ hfails again h) False.elim,
      iff_of_false (hfails _) False.elim⟩
  | cliDevicePoll deviceCode => exact Server.poll_execute_again h

end Execute

/-! ## Samples -/

namespace Sample

/-- A contradiction that is open, and a session that is approved. -/
def server : Server where
  intake := intake
  columns _ := ⟨none, .trusted, none, none⟩
  facts := disputed.ledger.facts
  conflictSets := disputed.ledger.conflictSets
  predicateAliases := .empty
  contextTraces := []
  episodeChunks := .empty
  subjectAliases := .empty
  feedback := []
  mergeReceipts := []
  forgetReceipts := []
  nextId := 0
  devices := approvedDevice.shared
  evictedAt _ := expiresIn

/-- A method on the server. -/
def call (request : SdkRequest) : Except SdkError (SdkResponse × Server) :=
  server.execute (fun _ ↦ "hash") 1000 0 request

/-- A capture of an event of the subject, named by a channel identity. -/
def captureNote : SdkRequest :=
  .capture [⟨note "a", some ("mail", "subject@example"), ⟨none, .trusted, none, none⟩⟩] none

end Sample

/-- A capture under an alias, sent again. -/
theorem sent_again_sample : ∃ response s', Sample.call Sample.captureNote = .ok (response, s') ∧
    ∃ again, s'.Repeats (fun _ ↦ "hash") 1000 1 Sample.captureNote again := by
  have hcall : ∃ result, Sample.call Sample.captureNote = .ok result := ⟨_, rfl⟩
  obtain ⟨⟨response, s'⟩, hcall⟩ := hcall
  exact ⟨response, s', hcall, (sent_again_iff hcall).1.mpr trivial⟩

/-- A conflict set that was resolved is refused, an observation is stored twice, and the key of an
approved session is lost. -/
theorem sent_again_fails :
    (∃ response s', Sample.call (.resolveConflict ⟨2, 0⟩ "project" ⟨1, 0⟩) = .ok (response, s') ∧
      s'.execute (fun _ ↦ "hash") 1000 1 (.resolveConflict ⟨2, 0⟩ "project" ⟨1, 0⟩) =
        .error (.subject (.ledger .conflictAlreadyResolved))) ∧
    (∃ response s' again s'', Sample.call (.feedback "project" .useful (.trace 0)) =
        .ok (response, s') ∧
      s'.execute (fun _ ↦ "hash") 1000 1 (.feedback "project" .useful (.trace 0)) =
        .ok (again, s'') ∧ s'.feedback.length = 1 ∧ s''.feedback.length = 2) ∧
    ∃ credentials s', Sample.call (.cliDevicePoll "device") =
        .ok (.polled (.approved credentials), s') ∧
      s'.execute (fun _ ↦ "hash") 1000 1 (.cliDevicePoll "device") =
        .error .deviceCodeNotFound := by
  refine ⟨⟨_, _, rfl, rfl⟩, ⟨_, _, _, _, rfl, rfl, rfl, rfl⟩, ⟨_, _, rfl, rfl⟩⟩

end Haki
