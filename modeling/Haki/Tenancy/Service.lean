import Haki.Api.Service
import Haki.Tenancy.Isolated
import Haki.Tenancy.Reads

/-!
# What tenants see of a service

`Service.only` is what some projects and some organizations see.  Projects share
what belongs to their organization: its account, and the list of its projects.
So an organization whose projects share one of these has to be seen as a whole,
or not at all (`Tenants.Closed`).

Capturing, the exchanges of the gateway and the queue are here; a job is of the
project that captured its events because it was enqueued so (`Service.Owned`).
-/

namespace Haki

open Data Control

instance : Tenanted EventRow := ⟨fun row ↦ row.content.projectId⟩
instance : Tenanted ConsolidateJob := ⟨ConsolidateJob.projectId⟩

/-- Some projects, and some organizations. -/
structure Tenants where
  projects : String → Bool
  orgs : String → Bool

/-- Who owns what.  An id is never drawn twice, so each has one owner. -/
structure Ownership where
  /-- The project an event id is drawn for. -/
  owner : EventId → String
  /-- The organization of a project. -/
  orgOf : String → String
  /-- The organizations that have an account, or whose projects are listed. -/
  Shared : String → Prop

/-- The tenants are all the projects of an organization whose projects share something, or none. -/
def Tenants.Closed (w : Ownership) (t : Tenants) : Prop :=
  ∀ p, w.Shared (w.orgOf p) → t.projects p = t.orgs (w.orgOf p)

/-- The accounts of the tenants. -/
def Tenants.accounts (t : Tenants) (accounts : String → Option Account) : String → Option Account :=
  fun org ↦ if t.orgs org then accounts org else none

/-- What the tenants see of a service. -/
def Service.only (t : Tenants) (s : Service) : Service where
  memory := s.memory.only t.projects
  eventRows := s.eventRows.filter (visible t.projects)
  accounts := t.accounts s.accounts
  jobs := s.jobs.filter (visible t.projects)

/-- Every row is of the project that owns the events it mentions, and of its organization. -/
structure Service.Owned (w : Ownership) (s : Service) : Prop where
  unique : s.memory.ledger.UniqueActive
  memory : s.memory.Owned w.owner
  eventRows : ∀ row ∈ s.eventRows, w.owner row.id = row.content.projectId ∧
    row.content.orgId = w.orgOf row.content.projectId
  accounts : ∀ org, (s.accounts org).isSome → w.Shared org
  jobs : ∀ job ∈ s.jobs, ∀ id ∈ job.eventIds, w.owner id = job.projectId

/-- A step that stays in the project `p`. -/
structure Service.Stays (w : Ownership) (p : String) (s s' : Service) : Prop where
  owned : s'.Owned w
  confined : ∀ t : Tenants, t.Closed w → t.projects p = false → s'.only t = s.only t

/-- The events of a batch are of the project `p`, and so are the ids drawn for them. -/
def DrawnFor (w : Ownership) (p : String) (batch : List (EventId × SdkEvent)) : Prop :=
  ∀ sent ∈ batch, w.owner sent.1 = p ∧ sent.2.projectId = p ∧ sent.2.orgId = w.orgOf p

variable {w : Ownership} {t : Tenants} {p : String} {s s' s'' : Service} {env : Env}
  {senv : ServiceEnv} {batch : List (EventId × SdkEvent)} {hash : EventContent → String}
  {batchKey : Option String} {now : Timestamp}

namespace Service.Stays

theorem refl (hs : s.Owned w) : s.Stays w p s := ⟨hs, fun _ _ _ ↦ rfl⟩

theorem trans (h : s.Stays w p s') (h' : s'.Stays w p s'') : s.Stays w p s'' :=
  ⟨h'.owned, fun t ht hp ↦ (h'.confined t ht hp).trans (h.confined t ht hp)⟩

/-- A step on the memory alone. -/
theorem of_memory {m : Memory} (hs : s.Owned w) (h : s.memory.Stays w.owner p m) :
    s.Stays w p { s with memory := m } := by
  refine ⟨⟨h.unique, h.owned, hs.eventRows, hs.accounts, hs.jobs⟩, fun t _ hp ↦ ?_⟩
  rw [Service.only, Service.only]
  dsimp only
  rw [h.confined t.projects hp]

end Service.Stays

/-! ## Subjects of a batch -/

/-- A resolved event is one of the batch, under another subject. -/
theorem mem_resolveEvents {aliases aliases' : Table SubjectAlias} {events resolved : List SdkEvent}
    (h : resolveEvents aliases events = .ok (resolved, aliases')) :
    ∀ e ∈ resolved, ∃ sent ∈ events, e.projectId = sent.projectId ∧ e.orgId = sent.orgId := by
  induction events generalizing aliases resolved with
  | nil =>
    cases h
    exact fun e he ↦ absurd he List.not_mem_nil
  | cons sent events ih =>
    obtain ⟨⟨event, aliases₁⟩, hevent, h⟩ := bind_eq_ok.mp h
    obtain ⟨⟨rest, aliases₂⟩, hrest, h⟩ := bind_eq_ok.mp h
    obtain ⟨⟨subjectId, aliases₃⟩, -, hevent⟩ := bind_eq_ok.mp hevent
    cases hevent
    cases h
    intro e he
    rcases List.mem_cons.mp he with rfl | he
    · exact ⟨sent, List.mem_cons_self, rfl, rfl⟩
    · obtain ⟨sent', hsent, hsame⟩ := ih hrest e he
      exact ⟨sent', List.mem_cons_of_mem _ hsent, hsame⟩

/-- Resolving the subjects of a batch registers aliases of its project only. -/
theorem resolveEvents_stays {m : Memory} {owner : EventId → String} {events resolved : List SdkEvent}
    {aliases : Table SubjectAlias} (hu : m.ledger.UniqueActive) (ho : m.Owned owner)
    (hp : ∀ sent ∈ events, sent.projectId = p)
    (h : resolveEvents m.subjectAliases events = .ok (resolved, aliases)) :
    m.Stays owner p { m with subjectAliases := aliases } := by
  induction events generalizing m resolved with
  | nil =>
    cases h
    exact .refl hu ho
  | cons sent events ih =>
    obtain ⟨hsent, hp⟩ := List.forall_mem_cons.mp hp
    obtain ⟨⟨event, aliases₁⟩, hevent, h⟩ := bind_eq_ok.mp h
    obtain ⟨⟨rest, aliases₂⟩, hrest, h⟩ := bind_eq_ok.mp h
    obtain ⟨⟨subjectId, aliases₃⟩, hsubject, hevent⟩ := bind_eq_ok.mp hevent
    cases hevent
    cases h
    have hscope : (⟨sent.projectId, sent.subjectId⟩ : Scope).projectId = p := hsent
    have hfirst := Memory.Stays.of_aliases hu ho (hscope ▸ captureSubject_aliases hsubject)
    have hlater := ih (m := { m with subjectAliases := aliases₁ }) hfirst.unique hfirst.owned hp hrest
    exact hfirst.trans hlater

theorem resolveEvents_only {keep : String → Bool} {events : List SdkEvent}
    (hk : ∀ sent ∈ events, keep sent.projectId = true) (aliases : Table SubjectAlias) :
    (resolveEvents aliases events).map (Prod.map id fun t ↦ t.filter (visible keep)) =
      resolveEvents (aliases.filter (visible keep)) events := by
  induction events generalizing aliases with
  | nil => rfl
  | cons sent events ih =>
    obtain ⟨hsent, hk⟩ := List.forall_mem_cons.mp hk
    have hscope : keep (⟨sent.projectId, sent.subjectId⟩ : Scope).projectId = true := hsent
    rw [resolveEvents, resolveEvents, SdkEvent.resolve, SdkEvent.resolve,
      ← captureSubject_only hscope]
    cases captureSubject aliases ⟨sent.projectId, sent.subjectId⟩ sent.subjectAlias with
    | error _ => rfl
    | ok found =>
      obtain ⟨subjectId, aliases₁⟩ := found
      simp only [ok_bind, Except.map, Prod.map, id, pure, Except.pure]
      rw [← ih hk]
      cases resolveEvents aliases₁ events <;> rfl

/-! ## Writing events -/

/-- The rows that are new are those of events of the batch. -/
theorem newRows_drawn (hb : DrawnFor w p batch) {rows : List EventRow} {row : EventRow}
    (h : row ∈ newRows hash batchKey rows (eventIns batch)) :
    w.owner row.id = p ∧ row.content.projectId = p ∧ row.content.orgId = w.orgOf p := by
  obtain ⟨drawn, hdrawn, rfl⟩ := mem_newRows h
  obtain ⟨sent, hsent, rfl⟩ := List.mem_map.mp hdrawn
  exact hb sent hsent

/-- Which rows are new depends on the rows of the project alone. -/
theorem newRows_only {keep : String → Bool} {drawn : List (EventId × EventIn)}
    (hk : ∀ d ∈ drawn, keep d.2.projectId = true) (rows : List EventRow) :
    newRows hash batchKey (rows.filter (visible keep)) drawn = newRows hash batchKey rows drawn := by
  induction drawn generalizing rows with
  | nil => rfl
  | cons d drawn ih =>
    obtain ⟨id, event⟩ := d
    obtain ⟨hevent, hk⟩ := List.forall_mem_cons.mp hk
    have hkey : event.eventKey hash batchKey ∈ (rows.filter (visible keep)).map EventRow.eventKey ↔
        event.eventKey hash batchKey ∈ rows.map EventRow.eventKey := by
      rw [List.mem_map, List.mem_map]
      constructor
      · rintro ⟨row, hrow, heq⟩
        exact ⟨row, List.mem_of_mem_filter hrow, heq⟩
      · rintro ⟨row, hrow, heq⟩
        have hproject : row.content.projectId = event.projectId := congrArg Prod.fst heq
        exact ⟨row, List.mem_filter.mpr ⟨hrow, visible_of_eq hevent hproject⟩, heq⟩
    have hrow : visible keep (eventRow hash batchKey id event) = true := hevent
    have happend : rows.filter (visible keep) ++ [eventRow hash batchKey id event] =
        (rows ++ [eventRow hash batchKey id event]).filter (visible keep) := by
      rw [List.filter_append, List.filter_cons_of_pos hrow, List.filter_nil]
    rw [newRows, newRows, happend, ih hk, ih hk]
    exact ite_congr (propext hkey) (fun _ ↦ rfl) fun _ ↦ rfl

/-- The events of a batch that are stored. -/
theorem mem_insertedEvents {new : List EventRow} {e : Event}
    (h : e ∈ insertedEvents new batch) :
    ∃ row ∈ new, e.id = row.id ∧ e.scope.projectId = row.content.projectId := by
  obtain ⟨sent, -, h⟩ := List.mem_filterMap.mp h
  obtain ⟨row, hrow, rfl⟩ := Option.map_eq_some_iff.mp h
  exact ⟨row, List.mem_of_find?_eq_some hrow, rfl, rfl⟩

namespace Service

/-- A batch stores rows of its project only. -/
theorem writeEvents_stays (hash : EventContent → String) (batchKey : Option String)
    (hs : s.Owned w) (hb : DrawnFor w p batch) :
    s.Stays w p (s.writeEvents hash batchKey batch).2 := by
  rw [writeEvents]
  dsimp only
  have hrow (row) (h : row ∈ newRows hash batchKey s.eventRows (eventIns batch)) :=
    newRows_drawn hb h
  generalize newRows hash batchKey s.eventRows (eventIns batch) = new at hrow
  have hevents : ∀ e ∈ insertedEvents new batch, w.owner e.id = p ∧ e.scope.projectId = p := by
    intro e he
    obtain ⟨row, hnew, hid, hproject⟩ := mem_insertedEvents he
    exact ⟨hid ▸ (hrow row hnew).1, hproject.trans (hrow row hnew).2.1⟩
  generalize insertedEvents new batch = events at hevents
  have hledger : s.memory.ledger.Stays w.owner p
      { s.memory.ledger with events := events.foldl Table.insert s.memory.ledger.events } := by
    refine ⟨hs.unique, ⟨fun e he ↦ ?_, hs.memory.ledger.facts, hs.memory.ledger.conflictSets,
      hs.memory.ledger.contextTraces⟩, fun keep hkeep ↦ ?_⟩
    · rcases Table.mem_of_mem_foldl_insert he with he | he
      · exact hs.memory.ledger.events e he
      · exact (hevents e he).1.trans (hevents e he).2.symm
    · have hhidden : ∀ e ∈ events, visible keep e = false :=
        fun e he ↦ (congrArg keep (hevents e he).2).trans hkeep
      rw [Db.only, Db.only]
      dsimp only
      rw [Table.filter_foldl_insert_of_false hhidden]
  obtain ⟨hunique, howned, hconfined⟩ := Memory.Stays.of_ledger hs.memory hledger
  refine ⟨⟨hunique, howned, fun row hmem ↦ ?_, hs.accounts, hs.jobs⟩, fun t _ hp ↦ ?_⟩
  · rcases List.mem_append.mp hmem with hmem | hmem
    · exact hs.eventRows row hmem
    · obtain ⟨howner, hproject, horg⟩ := hrow row hmem
      exact ⟨howner.trans hproject.symm, horg.trans (congrArg w.orgOf hproject.symm)⟩
  · have hhidden : ∀ row ∈ new, ¬ visible t.projects row = true :=
      fun row hmem ↦ ne_true_of_eq_false ((congrArg t.projects (hrow row hmem).2.1).trans hp)
    rw [Service.only, Service.only]
    dsimp only
    rw [hconfined t.projects hp, List.filter_append, List.filter_eq_nil_iff.mpr hhidden,
      List.append_nil]

/-- The rows of a batch, and whether they are duplicates, depend on what its project sees. -/
theorem writeEvents_only (hash : EventContent → String) (batchKey : Option String)
    (hs : s.Owned w) (hb : DrawnFor w p batch) (hk : t.projects p = true) :
    (s.only t).writeEvents hash batchKey batch =
      Prod.map id (Service.only t) (s.writeEvents hash batchKey batch) := by
  have hdrawn : ∀ d ∈ eventIns batch, t.projects d.2.projectId = true := by
    intro d hd
    obtain ⟨sent, hsent, rfl⟩ := List.mem_map.mp hd
    exact (congrArg t.projects (hb sent hsent).2.1).trans hk
  have hnew : newRows hash batchKey (s.only t).eventRows (eventIns batch) =
      newRows hash batchKey s.eventRows (eventIns batch) := newRows_only hdrawn s.eventRows
  rw [writeEvents, writeEvents, writeRows, writeRows, hnew]
  have hrow (row) (h : row ∈ newRows hash batchKey s.eventRows (eventIns batch)) :=
    newRows_drawn hb h
  generalize newRows hash batchKey s.eventRows (eventIns batch) = new at hrow
  have hrows : (s.only t).eventRows ++ new = (s.eventRows ++ new).filter (visible t.projects) := by
    rw [List.filter_append,
      List.filter_eq_self.mpr fun row h ↦ visible_of_eq hk (hrow row h).2.1]
    rfl
  have hfind (d) (hd : d ∈ eventIns batch) :
      ((s.only t).eventRows ++ new).find? (fun row ↦ row.eventKey = d.2.eventKey hash batchKey) =
        (s.eventRows ++ new).find? fun row ↦ row.eventKey = d.2.eventKey hash batchKey := by
    rw [hrows]
    apply find?_filter_of_imp
    intro row _ hkey
    have hproject : row.content.projectId = d.2.projectId :=
      congrArg Prod.fst (of_decide_eq_true hkey)
    exact visible_of_eq (hdrawn d hd) hproject
  have hevents : ∀ e ∈ insertedEvents new batch, w.owner e.id = p ∧ e.scope.projectId = p := by
    intro e he
    obtain ⟨row, hmem, hid, hproject⟩ := mem_insertedEvents he
    exact ⟨hid ▸ (hrow row hmem).1, hproject.trans (hrow row hmem).2.1⟩
  have hinsert : ((insertedEvents new batch).foldl Table.insert s.memory.ledger.events).filter
      (visible t.projects) = (insertedEvents new batch).foldl Table.insert
        (s.memory.ledger.events.filter (visible t.projects)) := by
    apply Table.filter_foldl_insert
    · exact fun e he ↦ visible_of_eq hk (hevents e he).2
    · intro e he b hb hid
      refine visible_of_eq hk ((hs.memory.ledger.events b hb).symm.trans ?_)
      exact (congrArg w.owner hid).trans (hevents e he).1
  refine Prod.ext (List.filterMap_congr fun d hd ↦ ?_) ?_
  · rw [hfind d hd]
  · dsimp only [Prod.map]
    rw [hrows, Service.only, Service.only, Memory.only, Memory.only, Db.only, Db.only]
    dsimp only
    rw [hinsert]

/-- The row that is selected for an event of a batch. -/
theorem mem_results (hs : s.Owned w) (hb : DrawnFor w p batch) {result : EventRow × Bool}
    (h : result ∈ (s.writeEvents hash batchKey batch).1) :
    w.owner result.1.id = p ∧ result.1.content.orgId = w.orgOf p := by
  obtain ⟨hmem, drawn, hdrawn, hkey⟩ := mem_writeRows h
  obtain ⟨sent, hsent, rfl⟩ := List.mem_map.mp hdrawn
  have hproject : result.1.content.projectId = p :=
    (congrArg Prod.fst hkey).trans (hb sent hsent).2.1
  rcases List.mem_append.mp hmem with hmem | hmem
  · obtain ⟨howner, horg⟩ := hs.eventRows _ hmem
    exact ⟨howner.trans hproject, horg.trans (congrArg w.orgOf hproject)⟩
  · obtain ⟨howner, -, horg⟩ := newRows_drawn hb hmem
    exact ⟨howner, horg⟩

/-- A job is enqueued for the project that captured its events. -/
theorem enqueue_stays {results : List (EventRow × Bool)} (hs : s.Owned w)
    (hresults : ∀ r ∈ results, w.owner r.1.id = p) : s.Stays w p (s.enqueue p results).2 := by
  rw [enqueue]
  split
  · exact .refl hs
  · refine ⟨⟨hs.unique, hs.memory, hs.eventRows, hs.accounts, fun job hjob id hid ↦ ?_⟩,
      fun t _ hp ↦ ?_⟩
    · rcases List.mem_append.mp hjob with hjob | hjob
      · exact hs.jobs job hjob id hid
      · obtain rfl := List.mem_singleton.mp hjob
        obtain ⟨r, hr, rfl⟩ := List.mem_map.mp hid
        exact hresults r (List.mem_of_mem_filter hr)
    · have hhidden (ids : List EventId) : ¬ visible t.projects (⟨p, ids⟩ : ConsolidateJob) = true :=
        ne_true_of_eq_false hp
      rw [Service.only, Service.only]
      dsimp only
      rw [List.filter_append, List.filter_cons_of_neg (hhidden _), List.filter_nil,
        List.append_nil]

theorem enqueue_only (hk : t.projects p = true) (s : Service) (results : List (EventRow × Bool)) :
    (s.only t).enqueue p results = Prod.map id (Service.only t) (s.enqueue p results) := by
  have hvisible (ids : List EventId) : visible t.projects (⟨p, ids⟩ : ConsolidateJob) = true := hk
  rw [enqueue, enqueue]
  split
  · rfl
  · refine Prod.ext rfl ?_
    dsimp only [Prod.map, Service.only]
    rw [List.filter_append, List.filter_cons_of_pos (hvisible _), List.filter_nil]

end Service

/-! ## Charges -/

section

variable {accounts accounts' : String → Option Account} {freeMonthlyCredits : Int} {org : String}
  {result : EventRow × Bool} {results : List (EventRow × Bool)}

/-- A charge is on the account of the organization of the event, if it has one. -/
theorem chargeEvent_eq_ok
    (h : chargeEvent now freeMonthlyCredits accounts result = .ok accounts') :
    accounts' = accounts ∨ (accounts result.1.content.orgId).isSome ∧
      ∃ account, accounts' = Function.update accounts result.1.content.orgId (some account) := by
  rw [chargeEvent] at h
  split at h
  · cases h
    exact .inl rfl
  · split at h
    · cases h
      exact .inl rfl
    · next account haccount =>
      obtain ⟨granted, -, h⟩ := bind_eq_ok.mp h
      obtain ⟨debited, -, h⟩ := bind_eq_ok.mp h
      cases h
      exact .inr ⟨by rw [haccount]; rfl, debited, rfl⟩

/-- The charges of a batch touch the account of its organization only, and open none. -/
theorem chargeEvents_eq_ok (horg : ∀ r ∈ results, r.1.content.orgId = org)
    (h : results.foldlM (chargeEvent now freeMonthlyCredits) accounts = .ok accounts') :
    (∀ o, (accounts' o).isSome = (accounts o).isSome) ∧ ∀ o, o ≠ org → accounts' o = accounts o := by
  induction results generalizing accounts with
  | nil =>
    cases h
    exact ⟨fun _ ↦ rfl, fun _ _ ↦ rfl⟩
  | cons result results ih =>
    obtain ⟨hresult, horg⟩ := List.forall_mem_cons.mp horg
    rw [List.foldlM_cons] at h
    obtain ⟨accounts₁, hfirst, h⟩ := bind_eq_ok.mp h
    obtain ⟨hsome, hother⟩ := ih horg h
    rcases chargeEvent_eq_ok hfirst with rfl | ⟨hopen, account, rfl⟩
    · exact ⟨hsome, hother⟩
    · rw [hresult] at hopen hsome hother
      refine ⟨fun o ↦ (hsome o).trans ?_, fun o ho ↦ (hother o ho).trans ?_⟩
      · by_cases ho : o = org
        · subst ho
          rw [Function.update_self, hopen]
          rfl
        · rw [Function.update_of_ne ho]
      · rw [Function.update_of_ne ho]

/-- The charges of a batch on what the tenants see. -/
theorem chargeEvents_only (hk : t.orgs org = true ∨ accounts org = none)
    (horg : ∀ r ∈ results, r.1.content.orgId = org) :
    (results.foldlM (chargeEvent now freeMonthlyCredits) accounts).map t.accounts =
      results.foldlM (chargeEvent now freeMonthlyCredits) (t.accounts accounts) := by
  induction results generalizing accounts with
  | nil => rfl
  | cons result results ih =>
    obtain ⟨hresult, horg⟩ := List.forall_mem_cons.mp horg
    have hfirst : (chargeEvent now freeMonthlyCredits accounts result).map t.accounts =
        chargeEvent now freeMonthlyCredits (t.accounts accounts) result := by
      have hsame : t.accounts accounts result.1.content.orgId =
          accounts result.1.content.orgId := by
        rw [hresult, Tenants.accounts]
        rcases hk with hk | hk
        · rw [if_pos hk]
        · rw [hk, ite_self]
      rw [chargeEvent, chargeEvent, hsame]
      split
      · rfl
      · split
        · rfl
        · next account haccount =>
          have hseen : t.orgs result.1.content.orgId = true := by
            rcases hk with hk | hk
            · rw [hresult, hk]
            · rw [hresult, hk] at haccount
              cases haccount
          have hupdate (debited : Account) :
              t.accounts (Function.update accounts result.1.content.orgId (some debited)) =
                Function.update (t.accounts accounts) result.1.content.orgId (some debited) := by
            funext o
            rw [Tenants.accounts]
            by_cases ho : o = result.1.content.orgId
            · subst ho
              rw [Function.update_self, Function.update_self, if_pos hseen]
            · rw [Function.update_of_ne ho, Function.update_of_ne ho, Tenants.accounts]
          cases account.maybeGrantLazyFreeCredits now freeMonthlyCredits with
          | error _ => rfl
          | ok granted =>
            rw [ok_bind, ok_bind]
            cases granted.tryDebitCredit now .captureDebit (some (.event result.1.id)) with
            | error _ => rfl
            | ok debited => exact congrArg Except.ok (hupdate debited)
    rw [List.foldlM_cons, List.foldlM_cons, ← hfirst]
    cases hcharge : chargeEvent now freeMonthlyCredits accounts result with
    | error _ => rfl
    | ok accounts₁ =>
      refine ih ?_ horg
      refine hk.imp_right fun hnone ↦ ?_
      rcases chargeEvent_eq_ok hcharge with rfl | ⟨hopen, -⟩
      · exact hnone
      · rw [hresult, hnone] at hopen
        cases hopen

namespace Service

/-- The charges stay in the organization of the project. -/
theorem charge_stays (hs : s.Owned w) (horg : ∀ r ∈ results, r.1.content.orgId = w.orgOf p)
    (h : s.charge senv now results = .ok s') : s.Stays w p s' := by
  obtain ⟨accounts', hcharge, h⟩ := bind_eq_ok.mp h
  cases h
  obtain ⟨hsome, hother⟩ := chargeEvents_eq_ok horg hcharge
  refine ⟨⟨hs.unique, hs.memory, hs.eventRows, fun o ho ↦ hs.accounts o (hsome o ▸ ho), hs.jobs⟩,
    fun t ht hp ↦ ?_⟩
  have haccounts : t.accounts accounts' = t.accounts s.accounts := by
    funext o
    rw [Tenants.accounts, Tenants.accounts]
    split
    · next hseen =>
      by_cases ho : o = w.orgOf p
      · subst ho
        have hclosed : (s.accounts (w.orgOf p)).isSome = false := by
          refine Bool.eq_false_iff.mpr fun hopen ↦ ?_
          rw [← ht p (hs.accounts _ hopen), hp] at hseen
          cases hseen
        have hclosed' := (hsome _).trans hclosed
        rw [Option.isSome_eq_false_iff, Option.isNone_iff_eq_none] at hclosed hclosed'
        rw [hclosed, hclosed']
      · exact hother o ho
    · rfl
  rw [Service.only, Service.only]
  dsimp only
  rw [haccounts]

theorem charge_only (hs : s.Owned w) (ht : t.Closed w) (hk : t.projects p = true)
    (horg : ∀ r ∈ results, r.1.content.orgId = w.orgOf p) :
    (s.charge senv now results).map (Service.only t) = (s.only t).charge senv now results := by
  have hseen : t.orgs (w.orgOf p) = true ∨ s.accounts (w.orgOf p) = none := by
    cases haccount : s.accounts (w.orgOf p) with
    | none => exact .inr rfl
    | some account =>
      have hshared : w.Shared (w.orgOf p) := hs.accounts _ (by rw [haccount]; rfl)
      exact .inl ((ht p hshared).symm.trans hk)
  have haccounts : (s.only t).accounts = t.accounts s.accounts := rfl
  rw [charge, charge, haccounts, ← chargeEvents_only hseen horg]
  cases results.foldlM (chargeEvent now senv.freeMonthlyCredits) s.accounts <;> rfl

end Service

end

/-! ## Captures -/

namespace Service

/-- What is drawn for a batch is drawn for its events under their subjects. -/
theorem drawnFor_zip {aliases aliases' : Table SubjectAlias} {events : List SdkEvent}
    (hb : DrawnFor w p batch)
    (h : resolveEvents aliases (batch.map Prod.snd) = .ok (events, aliases')) :
    DrawnFor w p ((batch.map Prod.fst).zip events) := by
  intro sent hsent
  obtain ⟨hid, hevent⟩ := List.of_mem_zip hsent
  obtain ⟨drawn, hdrawn, heq⟩ := List.mem_map.mp hid
  obtain ⟨event, hmem, hproject, horg⟩ := mem_resolveEvents h _ hevent
  obtain ⟨drawn', hdrawn', rfl⟩ := List.mem_map.mp hmem
  obtain ⟨-, hp, ho⟩ := hb drawn' hdrawn'
  exact ⟨heq ▸ (hb drawn hdrawn).1, hproject.trans hp, horg.trans ho⟩

/-- Without results there is no job to enqueue. -/
theorem enqueue_congr {projectId : String} {results : List (EventRow × Bool)}
    (h : results ≠ [] → projectId = p) (s : Service) :
    s.enqueue projectId results = s.enqueue p results := by
  cases results with
  | nil => rfl
  | cons r results => rw [h (List.cons_ne_nil _ _)]

/-- The events of a batch are all of its project once their subjects are resolved. -/
theorem resolved_project {aliases aliases' : Table SubjectAlias} {events : List SdkEvent}
    (hb : DrawnFor w p batch)
    (h : resolveEvents aliases (batch.map Prod.snd) = .ok (events, aliases')) :
    ((batch.map Prod.fst).zip events) ≠ [] →
      (events.head?.map fun e ↦ e.projectId).getD "" = p := by
  intro hne
  cases events with
  | nil => exact absurd List.zip_nil_right hne
  | cons e events =>
    obtain ⟨sent, hsent, hproject, -⟩ := mem_resolveEvents h e List.mem_cons_self
    obtain ⟨drawn, hdrawn, rfl⟩ := List.mem_map.mp hsent
    exact hproject.trans (hb drawn hdrawn).2.1

/-- The subjects of a batch are resolved in its project. -/
theorem resolved_stays {events : List SdkEvent} {aliases : Table SubjectAlias} (hs : s.Owned w)
    (hb : DrawnFor w p batch)
    (h : resolveEvents s.memory.subjectAliases (batch.map Prod.snd) = .ok (events, aliases)) :
    s.Stays w p (s.withAliases aliases) := by
  refine .of_memory hs (resolveEvents_stays hs.unique hs.memory (fun sent hsent ↦ ?_) h)
  obtain ⟨drawn, hdrawn, rfl⟩ := List.mem_map.mp hsent
  exact (hb drawn hdrawn).2.1

section

variable {projectId : String}

theorem results_nil {results : List (EventRow × Bool)}
    (h : (s.writeEvents hash batchKey batch).1 = results) (hne : results ≠ []) : batch ≠ [] := by
  rintro rfl
  exact hne h.symm

theorem accept_stays {response : CaptureResponse} (hs : s.Owned w) (hb : DrawnFor w p batch)
    (hp : batch ≠ [] → projectId = p)
    (h : s.accept senv batchKey now projectId batch = .ok (response, s')) : s.Stays w p s' := by
  obtain ⟨charged, hcharge, h⟩ := bind_eq_ok.mp h
  have hwritten := writeEvents_stays senv.eventHash batchKey hs hb
  have hcharged := charge_stays hwritten.owned (fun r hr ↦ (mem_results hs hb hr).2) hcharge
  have heq : (charged.enqueue projectId (s.writeEvents senv.eventHash batchKey batch).1).2 = s' :=
    congrArg Prod.snd (Except.ok.inj h)
  rw [← heq, enqueue_congr fun hne ↦ hp (results_nil rfl hne)]
  refine hwritten.trans (hcharged.trans ?_)
  exact enqueue_stays hcharged.owned fun r hr ↦ (mem_results hs hb hr).1

theorem accept_only (senv : ServiceEnv) (batchKey : Option String) (now : Timestamp)
    (hs : s.Owned w) (ht : t.Closed w) (hb : DrawnFor w p batch)
    (hp : batch ≠ [] → projectId = p) (hk : t.projects p = true) :
    (s.accept senv batchKey now projectId batch).map (Prod.map id (Service.only t)) =
      (s.only t).accept senv batchKey now projectId batch := by
  have hwritten := writeEvents_stays senv.eventHash batchKey hs hb
  have hresults (r) (hr : r ∈ (s.writeEvents senv.eventHash batchKey batch).1) :=
    mem_results hs hb hr
  have hproject (hne : (s.writeEvents senv.eventHash batchKey batch).1 ≠ []) : projectId = p :=
    hp (results_nil rfl hne)
  rw [accept, accept, writeEvents_only senv.eventHash batchKey hs hb hk]
  generalize s.writeEvents senv.eventHash batchKey batch = written at hwritten hresults hproject
  simp only [Prod.map, id]
  rw [← charge_only hwritten.owned ht hk fun r hr ↦ (hresults r hr).2]
  cases written.2.charge senv now written.1 with
  | error _ => rfl
  | ok charged =>
    simp only [Except.map, ok_bind]
    rw [enqueue_congr hproject, enqueue_congr hproject, enqueue_only hk]
    rfl

end

/-- A capture stays in its project. -/
theorem capture_stays {response : CaptureResponse} (hs : s.Owned w) (hb : DrawnFor w p batch)
    (h : s.capture senv batchKey now batch = .ok (response, s')) : s.Stays w p s' := by
  obtain ⟨⟨events, aliases⟩, hresolve, h⟩ := bind_eq_ok.mp h
  have hresolve := mapError_eq_ok.mp hresolve
  dsimp only at h
  split at h
  · cases h
  · have hresolved := resolved_stays hs hb hresolve
    exact hresolved.trans (accept_stays hresolved.owned (drawnFor_zip hb hresolve)
      (resolved_project hb hresolve) (mapError_eq_ok.mp h))

/-- A capture is answered, and stored, as what its project sees says. -/
theorem capture_only (hs : s.Owned w) (ht : t.Closed w) (hb : DrawnFor w p batch)
    (hk : t.projects p = true) :
    (s.capture senv batchKey now batch).map (Prod.map id (Service.only t)) =
      (s.only t).capture senv batchKey now batch := by
  have hseen : ∀ sent ∈ batch.map Prod.snd, t.projects sent.projectId = true := by
    intro sent hsent
    obtain ⟨drawn, hdrawn, rfl⟩ := List.mem_map.mp hsent
    exact (congrArg t.projects (hb drawn hdrawn).2.1).trans hk
  have haliases : (s.only t).memory.subjectAliases =
      s.memory.subjectAliases.filter (visible t.projects) := rfl
  rw [capture, capture, haliases, ← resolveEvents_only hseen]
  cases hresolve : resolveEvents s.memory.subjectAliases (batch.map Prod.snd) with
  | error _ => rfl
  | ok resolved =>
    obtain ⟨events, aliases⟩ := resolved
    have hresolved := resolved_stays hs hb hresolve
    have hview : (s.only t).withAliases (aliases.filter (visible t.projects)) =
        (s.withAliases aliases).only t := rfl
    have haccept := accept_only senv batchKey now hresolved.owned ht (drawnFor_zip hb hresolve)
      (resolved_project hb hresolve) hk
    simp only [Except.map, Except.mapError, Prod.map, id, ok_bind]
    cases events.findIdx? fun e ↦ e.subjectId = "" with
    | some _ => rfl
    | none =>
      dsimp only
      rw [hview, ← haccept]
      cases (s.withAliases aliases).accept senv batchKey now
        ((events.head?.map fun e ↦ e.projectId).getD "") ((batch.map Prod.fst).zip events) <;> rfl

/-! ## The gateway -/

theorem drawnFor_inScope {scope : Scope} {id : EventId} (event : SdkEvent)
    (hid : w.owner id = scope.projectId) : DrawnFor w scope.projectId
      [(id, event.inScope (w.orgOf scope.projectId) scope)] := by
  intro sent hsent
  obtain rfl := List.mem_singleton.mp hsent
  exact ⟨hid, rfl, rfl⟩

theorem captureTurn_stays {scope : Scope} {event : Option (EventId × SdkEvent)} (hs : s.Owned w)
    (hevent : ∀ e ∈ event, w.owner e.1 = scope.projectId) :
    s.Stays w scope.projectId (s.captureTurn senv (w.orgOf scope.projectId) scope event) := by
  cases event with
  | none => exact .refl hs
  | some event =>
    rw [captureTurn]
    split
    · exact .refl hs
    · have hdrawn := drawnFor_inScope event.2 (hevent event rfl)
      have hwritten := writeEvents_stays senv.eventHash none hs hdrawn
      exact hwritten.trans (enqueue_stays hwritten.owned fun r hr ↦ (mem_results hs hdrawn hr).1)

theorem captureTurn_only (senv : ServiceEnv) {scope : Scope} {event : Option (EventId × SdkEvent)}
    (hs : s.Owned w)
    (hevent : ∀ e ∈ event, w.owner e.1 = scope.projectId)
    (hk : t.projects scope.projectId = true) :
    (s.captureTurn senv (w.orgOf scope.projectId) scope event).only t =
      (s.only t).captureTurn senv (w.orgOf scope.projectId) scope event := by
  cases event with
  | none => rfl
  | some event =>
    rw [captureTurn, captureTurn]
    split
    · rfl
    · have hdrawn := drawnFor_inScope event.2 (hevent event rfl)
      rw [writeEvents_only senv.eventHash none hs hdrawn hk]
      exact (congrArg Prod.snd (enqueue_only hk _ _)).symm

theorem journal_stays (env : Env) {trace : ContextTrace} (hs : s.Owned w)
    (hof : Request.Of w.owner p (.context trace)) : s.Stays w p (s.journal trace) := by
  have hexec : Request.exec env s.memory (.context trace) = .ok (s.journal trace).memory := rfl
  exact .of_memory hs (Request.exec_stays hof hs.unique hs.memory hexec)

theorem journal_only {trace : ContextTrace} (hk : t.projects trace.scope.projectId = true)
    (s : Service) : (s.journal trace).only t = (s.only t).journal trace := by
  have htraces : (s.memory.ledger.contextTraces ++ [trace]).filter (visible t.projects) =
      s.memory.ledger.contextTraces.filter (visible t.projects) ++ [trace] := by
    rw [List.filter_append,
      List.filter_cons_of_pos (show visible t.projects trace = true from hk), List.filter_nil]
  simp only [Service.only, Memory.only, journal, Db.only, htraces]

/-- The trace of a packet is of the project it was built for. -/
theorem trace_of {m : Memory} {owner : EventId → String} {reader : Reader}
    {request : ContextRequest} {built : BuiltContext} (ho : m.Owned owner)
    (hbuilt : buildContext reader m.store request = .ok built) (id : TraceId) (now : Timestamp) :
    Request.Of owner request.scope.projectId (.context (built.trace id request.scope now)) := by
  refine ⟨rfl, fun factId hid ↦ ?_⟩
  obtain ⟨printed, hprinted, rfl⟩ := List.mem_map.mp hid
  exact buildContext_owned ho hbuilt printed hprinted

section

variable {reader : Reader} {turn : Option (String × String)} {traceId : TraceId}
  {reply : ContextPacket → Option (EventId × SdkEvent)}

theorem chat_stays (hs : s.Owned w) (hreply : ∀ packet, ∀ e ∈ reply packet, w.owner e.1 = p) :
    s.Stays w p (s.chat senv reader (w.orgOf p) p turn now traceId reply).2 := by
  cases turn with
  | none => exact .refl hs
  | some said =>
    rw [chat]
    split
    · exact .refl hs
    · next built hbuilt =>
      have htraced : s.Stays w p _ :=
        journal_stays senv.env hs (trace_of hs.memory hbuilt traceId now)
      have hevent : ∀ e ∈ reply built.packet, w.owner e.1 = (Scope.mk p said.1).projectId :=
        hreply built.packet
      exact htraced.trans (captureTurn_stays htraced.owned hevent)

theorem chat_only (hs : s.Owned w) (hreply : ∀ packet, ∀ e ∈ reply packet, w.owner e.1 = p)
    (hk : t.projects p = true) :
    (s.only t).chat senv reader (w.orgOf p) p turn now traceId reply =
      Prod.map id (Service.only t) (s.chat senv reader (w.orgOf p) p turn now traceId reply) := by
  cases turn with
  | none => rfl
  | some said =>
    have hscope : t.projects (Scope.mk p said.1).projectId = true := hk
    have hbuild : buildContext reader (s.only t).memory.store
        ⟨⟨p, said.1⟩, said.2, 3000, none, [], []⟩ =
          buildContext reader s.memory.store ⟨⟨p, said.1⟩, said.2, 3000, none, [], []⟩ :=
      buildContext_only hs.memory hscope
    rw [chat, chat, hbuild]
    cases hbuilt : buildContext reader s.memory.store ⟨⟨p, said.1⟩, said.2, 3000, none, [], []⟩ with
    | error _ => rfl
    | ok built =>
      have htraced := journal_stays senv.env hs (trace_of hs.memory hbuilt traceId now)
      have hevent : ∀ e ∈ reply built.packet, w.owner e.1 = (Scope.mk p said.1).projectId :=
        hreply built.packet
      have hcapture := captureTurn_only senv htraced.owned hevent hscope
      rw [journal_only hscope] at hcapture
      exact Prod.ext rfl hcapture.symm

end

end Service

/-! ## The queue -/

section

variable {owner : EventId → String} {keep : String → Bool} {m : Memory} {job : ConsolidateJob}
  {jobs : List ConsolidateJob}

/-- What is left of a job is of its project, and some of it. -/
theorem mem_remaining {only : Option (List EventId)} {rest : ConsolidateJob}
    (h : rest ∈ job.remaining only) :
    rest.projectId = job.projectId ∧ ∀ id ∈ rest.eventIds, id ∈ job.eventIds := by
  cases only with
  | none => cases h
  | some only =>
    rw [ConsolidateJob.remaining] at h
    split at h
    · cases h
    · obtain rfl := List.mem_singleton.mp h
      exact ⟨rfl, fun id hid ↦ List.mem_of_mem_filter hid⟩

variable (env : Env) (extract : Extractor) (only : Option (List EventId))
  (claimed : ConsolidateJob → Bool)

/-- One job leaves every row owned, and what is left of it. -/
theorem runJob_owned (hu : m.ledger.UniqueActive) (ho : m.Owned owner)
    (hjob : ∀ id ∈ job.eventIds, owner id = job.projectId) :
    m.Stays owner job.projectId (runJob env extract only claimed m job).2.1 ∧
      ∀ rest ∈ (runJob env extract only claimed m job).2.2, rest.projectId = job.projectId ∧
        ∀ id ∈ rest.eventIds, owner id = rest.projectId := by
  have hwhole : ∀ rest ∈ [job], rest.projectId = job.projectId ∧
      ∀ id ∈ rest.eventIds, owner id = rest.projectId :=
    List.forall_mem_singleton.mpr ⟨rfl, hjob⟩
  rw [runJob]
  split
  · split
    · next m' h =>
      refine ⟨Memory.consolidate_stays hu ho hjob h, fun rest hrest ↦ ?_⟩
      obtain ⟨hproject, hids⟩ := mem_remaining hrest
      exact ⟨hproject, fun id hid ↦ (hjob id (hids id hid)).trans hproject.symm⟩
    · exact ⟨.refl hu ho, hwhole⟩
  · exact ⟨.refl hu ho, hwhole⟩

/-- One job of a project that is seen runs on what is seen. -/
theorem runJob_only (hu : m.ledger.UniqueActive) (ho : m.Owned owner)
    (hjob : ∀ id ∈ job.eventIds, owner id = job.projectId) (hk : visible keep job = true) :
    runJob env extract only claimed (m.only keep) job =
      Prod.map id (Prod.map (Memory.only keep) id) (runJob env extract only claimed m job) := by
  rw [runJob, runJob, ← Memory.consolidate_only hu ho hk hjob extract only]
  split
  · cases m.consolidate env extract job.eventIds only <;> rfl
  · rfl

/-- A run of the queue leaves every row and every job owned. -/
theorem runJobs_owned (hu : m.ledger.UniqueActive) (ho : m.Owned owner)
    (hjobs : ∀ job ∈ jobs, ∀ id ∈ job.eventIds, owner id = job.projectId) :
    (runJobs env extract only claimed m jobs).2.1.ledger.UniqueActive ∧
      (runJobs env extract only claimed m jobs).2.1.Owned owner ∧
      ∀ job ∈ (runJobs env extract only claimed m jobs).2.2, ∀ id ∈ job.eventIds,
        owner id = job.projectId := by
  induction jobs generalizing m with
  | nil => exact ⟨hu, ho, fun _ h ↦ absurd h List.not_mem_nil⟩
  | cons job jobs ih =>
    obtain ⟨hjob, hjobs⟩ := List.forall_mem_cons.mp hjobs
    obtain ⟨hstays, hleft⟩ := runJob_owned env extract only claimed hu ho hjob
    obtain ⟨hu', ho', hrest⟩ := ih hstays.unique hstays.owned hjobs
    exact ⟨hu', ho', List.forall_mem_append.mpr ⟨fun rest h ↦ (hleft rest h).2, hrest⟩⟩

/-- What some projects see of the queue and of the memory after a run of the queue is a run of what
they see. -/
theorem runJobs_only (keep : String → Bool) (hu : m.ledger.UniqueActive) (ho : m.Owned owner)
    (hjobs : ∀ job ∈ jobs, ∀ id ∈ job.eventIds, owner id = job.projectId) :
    (runJobs env extract only claimed (m.only keep) (jobs.filter (visible keep))).2 =
      Prod.map (Memory.only keep) (List.filter (visible keep))
        (runJobs env extract only claimed m jobs).2 := by
  induction jobs generalizing m with
  | nil => rfl
  | cons job jobs ih =>
    obtain ⟨hjob, hjobs⟩ := List.forall_mem_cons.mp hjobs
    obtain ⟨hstays, hleft⟩ := runJob_owned env extract only claimed hu ho hjob
    have hlater := ih hstays.unique hstays.owned hjobs
    have hmemory := congrArg Prod.fst hlater
    have hqueue := congrArg Prod.snd hlater
    cases hseen : visible keep job with
    | true =>
      have hvisible : ∀ rest ∈ (runJob env extract only claimed m job).2.2,
          visible keep rest = true :=
        fun rest h ↦ (congrArg keep (hleft rest h).1).trans hseen
      rw [List.filter_cons_of_pos hseen, runJobs, runJobs,
        runJob_only env extract only claimed hu ho hjob hseen]
      refine Prod.ext hmemory ?_
      dsimp only [Prod.map]
      rw [List.filter_append, List.filter_eq_self.mpr hvisible]
      exact congrArg _ hqueue
    | false =>
      have hhidden : ∀ rest ∈ (runJob env extract only claimed m job).2.2,
          ¬ visible keep rest = true :=
        fun rest h ↦ ne_true_of_eq_false ((congrArg keep (hleft rest h).1).trans hseen)
      rw [List.filter_cons_of_neg (ne_true_of_eq_false hseen), ← hstays.confined keep hseen]
      refine Prod.ext hmemory (hqueue.trans ?_)
      dsimp only [Prod.map, runJobs]
      rw [List.filter_append, List.filter_eq_nil_iff.mpr hhidden, List.nil_append]

/-- Jobs that are not claimed are not counted. -/
theorem runJobs_done (keep : String → Bool) (hu : m.ledger.UniqueActive) (ho : m.Owned owner)
    (hjobs : ∀ job ∈ jobs, ∀ id ∈ job.eventIds, owner id = job.projectId)
    (hseen : ∀ job ∈ jobs, claimed job = true → visible keep job = true) :
    (runJobs env extract only claimed (m.only keep) (jobs.filter (visible keep))).1 =
      (runJobs env extract only claimed m jobs).1 := by
  induction jobs generalizing m with
  | nil => rfl
  | cons job jobs ih =>
    obtain ⟨hjob, hjobs⟩ := List.forall_mem_cons.mp hjobs
    obtain ⟨hfirst, hseen⟩ := List.forall_mem_cons.mp hseen
    obtain ⟨hstays, -⟩ := runJob_owned env extract only claimed hu ho hjob
    have hlater := ih hstays.unique hstays.owned hjobs hseen
    cases hvisible : visible keep job with
    | true =>
      rw [List.filter_cons_of_pos hvisible, runJobs, runJobs,
        runJob_only env extract only claimed hu ho hjob hvisible]
      show _ + _ = _ + _
      exact congrArg _ hlater
    | false =>
      have hnot : ¬ claimed job = true := by
        intro hclaimed
        rw [hfirst hclaimed] at hvisible
        cases hvisible
      have hidle : runJob env extract only claimed m job = (0, m, [job]) := if_neg hnot
      rw [List.filter_cons_of_neg (ne_true_of_eq_false hvisible), runJobs, hidle]
      exact (ih hu ho hjobs hseen).trans (Nat.zero_add _).symm

/-- A run of jobs of one project shows nothing to the others. -/
theorem runJobs_confined (keep : String → Bool) (hu : m.ledger.UniqueActive) (ho : m.Owned owner)
    (hjobs : ∀ job ∈ jobs, ∀ id ∈ job.eventIds, owner id = job.projectId)
    (hhidden : ∀ job ∈ jobs, claimed job = true → visible keep job = false) :
    (runJobs env extract only claimed m jobs).2.1.only keep = m.only keep ∧
      (runJobs env extract only claimed m jobs).2.2.filter (visible keep) =
        jobs.filter (visible keep) := by
  induction jobs generalizing m with
  | nil => exact ⟨rfl, rfl⟩
  | cons job jobs ih =>
    obtain ⟨hjob, hjobs⟩ := List.forall_mem_cons.mp hjobs
    obtain ⟨hfirst, hhidden⟩ := List.forall_mem_cons.mp hhidden
    obtain ⟨hstays, hleft⟩ := runJob_owned env extract only claimed hu ho hjob
    obtain ⟨hmemory, hqueue⟩ := ih hstays.unique hstays.owned hjobs hhidden
    rw [runJobs]
    dsimp only
    rw [List.filter_append, hqueue]
    cases hclaimed : claimed job with
    | true =>
      have hseen := hfirst hclaimed
      have hgone : ∀ rest ∈ (runJob env extract only claimed m job).2.2,
          ¬ visible keep rest = true :=
        fun rest h ↦ ne_true_of_eq_false ((congrArg keep (hleft rest h).1).trans hseen)
      refine ⟨hmemory.trans (hstays.confined keep hseen), ?_⟩
      rw [List.filter_eq_nil_iff.mpr hgone, List.filter_cons_of_neg (ne_true_of_eq_false hseen),
        List.nil_append]
    | false =>
      have hidle : runJob env extract only claimed m job = (0, m, [job]) :=
        if_neg (ne_true_of_eq_false hclaimed)
      rw [hidle] at hmemory ⊢
      refine ⟨hmemory, ?_⟩
      rw [List.filter_cons, List.filter_cons, List.filter_nil]
      split <;> rfl

end

namespace Service

variable {extract : Extractor} {scope : Scope}

/-- A run of the whole queue leaves every row and every job owned. -/
theorem poll_owned (hs : s.Owned w) : (s.poll senv now extract).2.Owned w := by
  obtain ⟨hu, ho, hjobs⟩ := runJobs_owned (senv.env.at now) extract none (fun _ ↦ true) hs.unique
    hs.memory hs.jobs
  exact ⟨hu, ho, hs.eventRows, hs.accounts, hjobs⟩

/-- A run of the whole queue, seen by the tenants. -/
theorem poll_only (hs : s.Owned w) :
    ((s.only t).poll senv now extract).2 = (s.poll senv now extract).2.only t := by
  have hrun := runJobs_only (senv.env.at now) extract none (fun _ ↦ true) t.projects hs.unique
    hs.memory hs.jobs
  have hmemory := congrArg Prod.fst hrun
  have hjobs := congrArg Prod.snd hrun
  rw [poll, poll, Service.only, Service.only]
  dsimp only [Prod.map] at hmemory hjobs ⊢
  rw [hmemory, hjobs]

/-- A job that has an event of the subject is one of its project. -/
theorem claimed_project (scope : Scope) (hs : s.Owned w) (job : ConsolidateJob) (hjob : job ∈ s.jobs)
    (h : ∃ id ∈ job.eventIds,
      id ∈ (s.memory.ledger.events.rows.filter fun e ↦ e.scope = scope).map Event.id) :
    job.projectId = scope.projectId := by
  obtain ⟨id, hid, hmem⟩ := h
  obtain ⟨e, he, rfl⟩ := List.mem_map.mp hmem
  obtain ⟨he, hscope⟩ := List.mem_filter.mp he
  rw [← hs.jobs job hjob e.id hid, hs.memory.ledger.events e he, of_decide_eq_true hscope]

theorem consolidateSubject_stays (hs : s.Owned w) :
    s.Stays w scope.projectId (s.consolidateSubject senv scope now extract).2 := by
  have hclaimed := fun job hjob ↦ claimed_project scope hs job hjob
  rw [consolidateSubject]
  generalize (s.memory.ledger.events.rows.filter fun e ↦ e.scope = scope).map Event.id = ids
    at hclaimed ⊢
  obtain ⟨hu, ho, hjobs⟩ := runJobs_owned (senv.env.at now) extract (some ids)
    (fun job ↦ ∃ id ∈ job.eventIds, id ∈ ids) hs.unique hs.memory hs.jobs
  refine ⟨⟨hu, ho, hs.eventRows, hs.accounts, hjobs⟩, fun t _ hp ↦ ?_⟩
  obtain ⟨hmemory, hleft⟩ := runJobs_confined (senv.env.at now) extract (some ids)
    (fun job ↦ ∃ id ∈ job.eventIds, id ∈ ids) t.projects hs.unique hs.memory hs.jobs
    fun job hjob h ↦ (congrArg t.projects (hclaimed job hjob (of_decide_eq_true h))).trans hp
  rw [Service.only, Service.only]
  dsimp only
  rw [hmemory, hleft]

theorem consolidateSubject_only (hs : s.Owned w) (hk : t.projects scope.projectId = true) :
    (s.only t).consolidateSubject senv scope now extract =
      Prod.map id (Service.only t) (s.consolidateSubject senv scope now extract) := by
  have hevents : ((s.only t).memory.ledger.events.rows.filter fun e ↦ e.scope = scope) =
      s.memory.ledger.events.rows.filter fun e ↦ e.scope = scope := by
    apply filter_filter_of_imp
    intro e _ he
    exact visible_of_eq hk (congrArg Scope.projectId (of_decide_eq_true he))
  have hclaimed := fun job hjob ↦ claimed_project scope hs job hjob
  rw [consolidateSubject, consolidateSubject, hevents]
  generalize (s.memory.ledger.events.rows.filter fun e ↦ e.scope = scope).map Event.id = ids
    at hclaimed ⊢
  have hdone := runJobs_done (senv.env.at now) extract (some ids)
    (fun job ↦ ∃ id ∈ job.eventIds, id ∈ ids) t.projects hs.unique hs.memory hs.jobs
    fun job hjob h ↦ visible_of_eq (a := job) hk (hclaimed job hjob (of_decide_eq_true h))
  have hrun := runJobs_only (senv.env.at now) extract (some ids)
    (fun job ↦ ∃ id ∈ job.eventIds, id ∈ ids) t.projects hs.unique hs.memory hs.jobs
  have hmemory := congrArg Prod.fst hrun
  have hjobs := congrArg Prod.snd hrun
  refine Prod.ext hdone ?_
  dsimp only [Prod.map] at hmemory hjobs ⊢
  rw [Service.only, Service.only]
  dsimp only
  rw [hmemory, hjobs]

end Service

end Haki
