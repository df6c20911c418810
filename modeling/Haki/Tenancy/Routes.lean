import Haki.Control.Unwinding
import Haki.Tenancy.Service

/-!
# The routes read and write one project

Every route, given the project it is about, stays in it
(`RouteCall.answer_stays`) and answers from what the project sees
(`RouteCall.answer_only`).  That holds of all that is answered: the counters of
an erasure, the facts a resolution superseded and the nodes of a graph as much
as the rows that are written.
-/

namespace Haki

open Data Control

variable {owner : EventId → String} {env : Env} {keep : String → Bool} {p : String}
  {m m' : Memory} {db : Db} {scope : Scope}

/-! ## Read routes -/

theorem listTimeline_only (hk : keep scope.projectId = true) :
    (db.only keep).listTimeline scope = db.listTimeline scope := by
  refine congrArg _ (filter_filter_of_imp fun e _ he ↦ visible_of_eq hk ?_)
  exact congrArg Scope.projectId (of_decide_eq_true he)

theorem listFacts_only (hk : keep scope.projectId = true) (status : Option FactStatus) :
    (db.only keep).listFacts scope status = db.listFacts scope status := by
  rw [Db.listFacts, Db.listFacts]
  congr 2
  apply filter_filter_of_imp
  intro f _ hf
  exact visible_of_eq hk (congrArg Scope.projectId (of_decide_eq_true hf).1)

theorem listTraces_only (hk : keep p = true) (subjectId : Option String) :
    (db.only keep).listTraces p subjectId = db.listTraces p subjectId := by
  rw [Db.listTraces, Db.listTraces]
  congr 2
  apply filter_filter_of_imp
  intro t _ ht
  exact visible_of_eq hk (of_decide_eq_true ht).1

theorem listConflicts_only (hk : keep p = true) (subjectId : Option String) :
    (db.only keep).listConflicts p subjectId = db.listConflicts p subjectId := by
  refine congrArg _ (filter_filter_of_imp fun s _ hs ↦ visible_of_eq hk ?_)
  exact (of_decide_eq_true hs).2.1

theorem getTrace_only (hk : keep scope.projectId = true) (id : TraceId) :
    (db.only keep).getTrace id scope = db.getTrace id scope := by
  have hfind : ((db.only keep).contextTraces.find? fun t ↦ t.id = id ∧ t.scope = scope) =
      db.contextTraces.find? fun t ↦ t.id = id ∧ t.scope = scope := by
    apply find?_filter_of_imp
    intro t _ ht
    exact visible_of_eq hk (congrArg Scope.projectId (of_decide_eq_true ht).2)
  rw [Db.getTrace, Db.getTrace, hfind]

theorem listSubjects_only (hk : keep p = true) :
    (db.only keep).listSubjects p = db.listSubjects p := by
  have hlive : (db.only keep).liveFacts p = db.liveFacts p := by
    apply filter_filter_of_imp
    intro f _ hf
    exact visible_of_eq hk (of_decide_eq_true hf).1
  have hrow (subjectId : String) :
      (db.only keep).subjectOut p subjectId = db.subjectOut p subjectId := by
    have htraces : ((db.only keep).contextTraces.filter fun t ↦ t.scope = ⟨p, subjectId⟩) =
        db.contextTraces.filter fun t ↦ t.scope = ⟨p, subjectId⟩ := by
      apply filter_filter_of_imp
      intro t _ ht
      exact visible_of_eq hk (congrArg Scope.projectId (of_decide_eq_true ht))
    rw [Db.subjectOut, Db.subjectOut, hlive, htraces]
  rw [Db.listSubjects, Db.listSubjects, hlive, funext hrow]

theorem mem_graphFacts {f : Fact} :
    f ∈ db.graphFacts scope ↔ f ∈ db.facts ∧ f.scope = scope ∧ f.status ≠ .deleted := by
  rw [Db.graphFacts, List.mem_insertionSort, List.mem_filter, decide_eq_true_iff, Table.mem_rows]

theorem graphFacts_only (hk : keep scope.projectId = true) :
    (db.only keep).graphFacts scope = db.graphFacts scope := by
  refine congrArg _ (filter_filter_of_imp fun f _ hf ↦ visible_of_eq hk ?_)
  exact congrArg Scope.projectId (of_decide_eq_true hf).1

/-- The events of a graph are loaded by primary key alone, and are of the project all the same. -/
theorem graphEvents_only (ho : db.Owned owner) (hk : keep scope.projectId = true) :
    (db.only keep).graphEvents scope = db.graphEvents scope := by
  rw [Db.graphEvents, Db.graphEvents, graphFacts_only hk]
  apply filter_filter_of_imp
  intro e he hid
  obtain ⟨f, hf, hsource⟩ := List.mem_flatMap.mp (of_decide_eq_true hid)
  obtain ⟨hf, hscope, -⟩ := mem_graphFacts.mp hf
  refine visible_of_eq hk ?_
  show e.scope.projectId = scope.projectId
  rw [← ho.events e he, (ho.facts f hf).sources e.id hsource, hscope]

theorem buildSubjectGraph_only (ho : db.Owned owner) (hk : keep scope.projectId = true)
    (printer : GraphPrinter) :
    (db.only keep).buildSubjectGraph printer scope = db.buildSubjectGraph printer scope := by
  have hfact : (db.only keep).factEdges printer scope = db.factEdges printer scope := by
    funext f
    rw [Db.factEdges, Db.factEdges, graphFacts_only hk]
  have hsource : (db.only keep).sourceEdges printer scope = db.sourceEdges printer scope := by
    funext f
    rw [Db.sourceEdges, Db.sourceEdges, graphEvents_only ho hk]
  rw [Db.buildSubjectGraph, Db.buildSubjectGraph, Db.graphNodes, Db.graphNodes, Db.graphEdges,
    Db.graphEdges, graphFacts_only hk, graphEvents_only ho hk, hfact, hsource]

/-- What a route requires is neither missing nor blank. -/
theorem requireScope_eq_ok {field value : String} {param : Option String} :
    requireScope field param = .ok value ↔ param = some value ∧ value ≠ "" := by
  rw [requireScope]
  constructor
  · intro h
    split at h
    · next found hfound =>
      cases h
      obtain ⟨hparam, hne⟩ := Option.filter_eq_some_iff.mp hfound
      exact ⟨hparam, of_decide_eq_true hne⟩
    · cases h
  · rintro ⟨rfl, hne⟩
    simp [Option.filter, hne]

/-- A read route answers from what the project sees. -/
theorem Read.answer_only (ho : m.Owned owner) {projectId : Option String}
    (hk : ∀ q ∈ projectId, q = "" ∨ keep q = true) (subjectId : Option String) (route : Read) :
    route.answer (m.only keep) projectId subjectId = route.answer m projectId subjectId := by
  have hproject {β : Type} {f g : String → Except ReadError β}
      (h : ∀ q, keep q = true → f q = g q) :
      requireScope "project_id" projectId >>= f = requireScope "project_id" projectId >>= g := by
    cases hq : requireScope "project_id" projectId with
    | error _ => rfl
    | ok q =>
      obtain ⟨hparam, hne⟩ := requireScope_eq_ok.mp hq
      exact h q ((hk q hparam).resolve_left hne)
  have hscope {q : String} (hq : keep q = true) (s : String) :
      keep (Scope.mk q s).projectId = true := hq
  rw [Read.answer.eq_def, Read.answer.eq_def, Memory.only]
  cases route with
  | timeline =>
    dsimp only
    congr 1
    funext s
    exact hproject fun q hq ↦ by rw [listTimeline_only (hscope hq s)]
  | facts status =>
    apply hproject
    intro q hq
    congr 1
    funext s
    rw [listFacts_only (hscope hq s)]
  | traces => exact hproject fun q hq ↦ by rw [listTraces_only hq]
  | conflicts now => exact hproject fun q hq ↦ by rw [listConflicts_only hq]
  | inspect text id =>
    apply hproject
    intro q hq
    congr 1
    funext s
    rw [getTrace_only (hscope hq s)]
  | graph printer =>
    apply hproject
    intro q hq
    congr 1
    funext s
    rw [buildSubjectGraph_only ho.ledger (hscope hq s)]
  | subjects => exact hproject fun q hq ↦ by rw [listSubjects_only hq]

/-! ## What is answered -/

theorem supersededIds_only (ho : db.Owned owner) (hk : keep p = true) {id : ConflictId}
    {kept : FactId} {now : Timestamp} {db' : Db}
    (h : resolveConflict now db p id kept = .ok db') :
    (db.only keep).supersededIds id kept = db.supersededIds id kept := by
  obtain ⟨conflict, -, hc, -, -, -, -⟩ := resolveConflict_eq_ok h
  have hproject := resolveConflict_projectId h hc
  obtain ⟨hmem, hkey⟩ := Table.get?_eq_some_iff.mp hc
  have hset : (db.only keep).conflictSet? id = some conflict :=
    (Table.get?_filter fun s hs hid ↦ by
      obtain rfl := Table.eq_of_key_eq hs hmem (hid.trans hkey.symm)
      exact visible_of_eq hk hproject).trans hc
  rw [Db.supersededIds, Db.supersededIds, hset, hc]
  apply List.filter_congr
  intro member hmember
  have hmember : keep (owner member.event) = true := by
    rw [(ho.conflictSets conflict hmem).members member hmember, hproject]
    exact hk
  rw [fact?_only ho hmember]

theorem factStatus_only (ho : db.Owned owner) (hk : keep p = true) {target : FeedbackTarget}
    (htarget : ∀ id, target = .fact id → owner id.event = p) :
    target.factStatus (db.only keep) = target.factStatus db := by
  cases target with
  | trace id => rfl
  | fact id =>
    have hid : keep (owner id.event) = true := (congrArg keep (htarget id rfl)).trans hk
    rw [FeedbackTarget.factStatus, FeedbackTarget.factStatus, fact?_only ho hid]

/-- A merge of subjects of a project is answered from what the project sees. -/
theorem Memory.receipts_only (hu : m.ledger.UniqueActive) (hk : keep p = true)
    (source target : String) :
    ((m.mergeSubjects p source target).map Prod.swap).map (Prod.map id (Memory.only keep)) =
      ((m.only keep).mergeSubjects p source target).map Prod.swap := by
  have hmerge := Memory.mergeSubjects_only hu hk source target
  cases h : m.mergeSubjects p source target with
  | error e =>
    rw [h] at hmerge
    cases h' : (m.only keep).mergeSubjects p source target with
    | error e' =>
      rw [h'] at hmerge
      cases hmerge
      rfl
    | ok _ =>
      rw [h'] at hmerge
      cases hmerge
  | ok merged =>
    obtain ⟨m', receipt⟩ := merged
    rw [h] at hmerge
    cases h' : (m.only keep).mergeSubjects p source target with
    | error _ =>
      rw [h'] at hmerge
      cases hmerge
    | ok merged' =>
      obtain ⟨m'', receipt'⟩ := merged'
      rw [h'] at hmerge
      cases hmerge
      obtain ⟨-, -, rfl, -⟩ := Memory.mergeSubjects_eq_ok h
      obtain ⟨-, -, rfl, -⟩ := Memory.mergeSubjects_eq_ok h'
      rw [Memory.receipt_only hk]
      rfl

/-! ## Forgetting -/

theorem onFactOf_only (hk : keep scope.projectId = true) (m : Memory) (row : Feedback) :
    (m.only keep).OnFactOf scope row ↔ m.OnFactOf scope row := by
  constructor
  · rintro ⟨id, hid, f, hf, hfid, hscope⟩
    exact ⟨id, hid, f, (Table.mem_filter.mp hf).1, hfid, hscope⟩
  · rintro ⟨id, hid, f, hf, hfid, hscope⟩
    have hvisible : visible keep f = true := visible_of_eq hk (congrArg Scope.projectId hscope)
    exact ⟨id, hid, f, Table.mem_filter.mpr ⟨hf, hvisible⟩, hfid, hscope⟩

/-- An erasure counts rows of its subject. -/
theorem forgetSubjectCounters_only (hk : keep scope.projectId = true) (m : Memory)
    (mode : ForgetMode) :
    (m.only keep).forgetSubjectCounters scope mode = m.forgetSubjectCounters scope mode := by
  have hcount {α : Type} [Tenanted α] (f : α → Scope)
      (hf : ∀ a, Tenanted.projectId a = (f a).projectId) (l : List α) :
      (l.filter (visible keep)).countP (fun a ↦ f a = scope) = l.countP fun a ↦ f a = scope := by
    apply countP_filter_of_imp
    intro a _ ha
    exact visible_of_eq hk ((hf a).trans (congrArg Scope.projectId (of_decide_eq_true ha)))
  cases mode with
  | disable =>
    refine congrArg (fun n ↦ ({ factsDisabled := n } : ForgetCounters)) ?_
    apply countP_filter_of_imp
    intro f _ hf
    exact visible_of_eq hk (congrArg Scope.projectId (of_decide_eq_true hf).1)
  | delete =>
    have hfeedback : ((m.only keep).feedback.countP fun row ↦
          row.projectId = scope.projectId ∧ (m.only keep).OnFactOf scope row) =
        m.feedback.countP fun row ↦ row.projectId = scope.projectId ∧ m.OnFactOf scope row := by
      simp only [onFactOf_only hk]
      apply countP_filter_of_imp
      intro row _ hrow
      exact visible_of_eq hk (of_decide_eq_true hrow).1
    have haliases : ((m.only keep).subjectAliases.rows.countP fun a ↦
          a.projectId = scope.projectId ∧ a.canonicalSubjectId = scope.subjectId) =
        m.subjectAliases.rows.countP fun a ↦
          a.projectId = scope.projectId ∧ a.canonicalSubjectId = scope.subjectId := by
      apply countP_filter_of_imp
      intro a _ ha
      exact visible_of_eq hk (of_decide_eq_true ha).1
    rw [Memory.forgetSubjectCounters, Memory.forgetSubjectCounters, hfeedback, haliases]
    simp only [Memory.only, Db.only, Table.rows_filter, hcount Fact.scope fun _ ↦ rfl,
      hcount ConflictSet.scope fun _ ↦ rfl, hcount Event.scope fun _ ↦ rfl,
      hcount ContextTrace.scope fun _ ↦ rfl, hcount PredicateAlias.scope fun _ ↦ rfl]

theorem forgetFactCounters_only (ho : m.Owned owner) {id : FactId}
    (hid : keep (owner id.event) = true) (mode : ForgetMode) :
    (m.only keep).forgetFactCounters id mode = m.forgetFactCounters id mode := by
  have hfact : (m.only keep).ledger.fact? id = m.ledger.fact? id := fact?_only ho.ledger hid
  cases mode <;> rw [Memory.forgetFactCounters, Memory.forgetFactCounters, hfact]

theorem Memory.forget_only (env : Env) (hk : keep p = true) (now : Timestamp) (mode : ForgetMode)
    (target : ForgetTarget) (hu : m.ledger.UniqueActive) (ho : m.Owned owner) :
    (m.forget now p mode target).map (Prod.map id (Memory.only keep)) =
      (m.only keep).forget now p mode target := by
  cases target with
  | fact id =>
    have hledger : (forgetFact now m.ledger p id mode).map (Db.only keep) =
        forgetFact now (m.only keep).ledger p id mode := forgetFact_only hu ho.ledger hk id mode
    rw [Memory.forget, Memory.forget, ← hledger]
    cases h : forgetFact now m.ledger p id mode with
    | error _ => rfl
    | ok ledger =>
      obtain ⟨f, hf, -⟩ := bind_eq_ok.mp h
      have hid : keep (owner id.event) = true :=
        (congrArg keep (getProjectFact_owner ho.ledger hf).2).trans hk
      exact congrArg (fun counters ↦ Except.ok (counters, _))
        (forgetFactCounters_only ho hid mode).symm
  | subject subjectId =>
    have hof : Request.Of owner p (.forgetSubject now ⟨p, subjectId⟩ mode) := rfl
    have hexec : (Request.exec env m _).map (Memory.only keep) = _ :=
      Request.exec_only hof hk hu ho
    have hrequest : (m.forgetSubject now ⟨p, subjectId⟩ mode).map (Memory.only keep) =
        (m.only keep).forgetSubject now ⟨p, subjectId⟩ mode := hexec
    have hcounters : (m.only keep).forgetSubjectCounters ⟨p, subjectId⟩ mode =
        m.forgetSubjectCounters ⟨p, subjectId⟩ mode := forgetSubjectCounters_only hk m mode
    rw [Memory.forget, Memory.forget, ← hrequest]
    cases m.forgetSubject now ⟨p, subjectId⟩ mode with
    | error _ => rfl
    | ok m' => exact congrArg (fun counters ↦ Except.ok (counters, _)) hcounters.symm

theorem Memory.forget_stays (env : Env) {now : Timestamp} {mode : ForgetMode}
    {target : ForgetTarget} {counters : ForgetCounters} (hu : m.ledger.UniqueActive)
    (ho : m.Owned owner) (h : m.forget now p mode target = .ok (counters, m')) :
    m.Stays owner p m' := by
  have executed {request : Request} (h : request.exec env m = .ok m')
      (hof : request.Of owner p) : m.Stays owner p m' := Request.exec_stays hof hu ho h
  cases target with
  | fact id =>
    obtain ⟨ledger, h₁, h⟩ := bind_eq_ok.mp h
    cases h
    have hexec : Request.exec env m (.forgetFact now p id mode) =
        .ok { m with ledger := ledger } := by
      rw [Request.exec, h₁]
      rfl
    exact executed hexec rfl
  | subject subjectId =>
    obtain ⟨m₁, h₁, h⟩ := bind_eq_ok.mp h
    cases h
    have hexec : Request.exec env m (.forgetSubject now ⟨p, subjectId⟩ mode) = .ok _ := h₁
    exact executed hexec rfl

namespace Service

variable {w : Ownership} {t : Tenants} {s s' : Service}

/-- A row of an event of a project is of the project. -/
theorem Owned.row_project (hs : s.Owned w) {row : EventRow} (hrow : row ∈ s.eventRows) {e : Event}
    (he : e ∈ s.memory.ledger.events) (hid : e.id = row.id) :
    row.content.projectId = e.scope.projectId := by
  rw [← (hs.eventRows row hrow).1, ← hid]
  exact hs.memory.ledger.events e he

/-- An erasure drops rows of its project only. -/
theorem keptRows_confined (hs : s.Owned w) (hp : keep p = false) (mode : ForgetMode)
    (target : ForgetTarget) :
    (s.keptRows p mode target).filter (visible keep) = s.eventRows.filter (visible keep) := by
  rw [keptRows.eq_def]
  split
  · rw [filter_comm]
    refine List.filter_eq_self.mpr fun row hrow ↦ decide_eq_true ?_
    rintro ⟨e, he, hid, hscope⟩
    obtain ⟨hmem, hvisible⟩ := List.mem_filter.mp hrow
    have hproject := hs.row_project hmem he hid
    rw [hscope] at hproject
    rw [visible, show Tenanted.projectId row = p from hproject, hp] at hvisible
    cases hvisible
  · rfl

/-- Which rows an erasure drops is decided by the events its project sees. -/
theorem keptRows_only (hk : t.projects p = true) (mode : ForgetMode) (target : ForgetTarget) :
    (s.only t).keptRows p mode target = (s.keptRows p mode target).filter (visible t.projects) := by
  rw [keptRows.eq_def, keptRows.eq_def]
  split
  · next subjectId =>
    have hevents (row : EventRow) :
        (∃ e ∈ (s.only t).memory.ledger.events, e.id = row.id ∧ e.scope = ⟨p, subjectId⟩) ↔
          ∃ e ∈ s.memory.ledger.events, e.id = row.id ∧ e.scope = ⟨p, subjectId⟩ := by
      constructor
      · rintro ⟨e, he, h⟩
        exact ⟨e, (Table.mem_filter.mp he).1, h⟩
      · rintro ⟨e, he, hid, hscope⟩
        have hvisible : visible t.projects e = true :=
          visible_of_eq hk (congrArg Scope.projectId hscope)
        exact ⟨e, Table.mem_filter.mpr ⟨he, hvisible⟩, hid, hscope⟩
    simp only [hevents]
    exact filter_comm _ _ _
  · rfl

theorem mem_keptRows {mode : ForgetMode} {target : ForgetTarget} {row : EventRow}
    (h : row ∈ s.keptRows p mode target) : row ∈ s.eventRows := by
  rw [keptRows.eq_def] at h
  split at h
  · exact List.mem_of_mem_filter h
  · exact h

/-- An erasure stays in its project. -/
theorem forget_stays (env : Env) {now : Timestamp} {mode : ForgetMode} {target : ForgetTarget}
    {counters : ForgetCounters} (hs : s.Owned w)
    (h : s.forget now p mode target = .ok (counters, s')) : s.Stays w p s' := by
  obtain ⟨⟨counters, m'⟩, hforget, h⟩ := bind_eq_ok.mp h
  cases h
  obtain ⟨hunique, howned, hconfined⟩ :=
    Memory.forget_stays env hs.unique hs.memory hforget
  refine ⟨⟨hunique, howned, fun row hrow ↦ hs.eventRows row (mem_keptRows hrow), hs.accounts,
    hs.jobs⟩, fun t _ hp ↦ ?_⟩
  rw [Service.only, Service.only]
  dsimp only
  rw [hconfined t.projects hp, keptRows_confined hs hp]

theorem forget_only (env : Env) (hs : s.Owned w) (hk : t.projects p = true) (now : Timestamp)
    (mode : ForgetMode) (target : ForgetTarget) :
    (s.forget now p mode target).map (Prod.map id (Service.only t)) =
      (s.only t).forget now p mode target := by
  have hmemory : (s.only t).memory = s.memory.only t.projects := rfl
  rw [forget, forget, hmemory, ← Memory.forget_only env hk now mode target hs.unique hs.memory,
    keptRows_only hk]
  cases s.memory.forget now p mode target <;> rfl

end Service

/-! ## Projects -/

theorem projectOut_only (hk : keep p = true) : (db.only keep).projectOut p = db.projectOut p := by
  have hlive : (db.only keep).liveFacts p = db.liveFacts p := by
    apply filter_filter_of_imp
    intro f _ hf
    exact visible_of_eq hk (of_decide_eq_true hf).1
  have hactive : ((db.only keep).facts.rows.countP fun f ↦
        f.scope.projectId = p ∧ f.status = .active) =
      db.facts.rows.countP fun f ↦ f.scope.projectId = p ∧ f.status = .active := by
    apply countP_filter_of_imp
    intro f _ hf
    exact visible_of_eq hk (of_decide_eq_true hf).1
  rw [Db.projectOut, Db.projectOut, hlive, hactive]

/-! ## Routes -/

namespace RouteCall

variable {w : Ownership} {t : Tenants} {s : Service} {senv : ServiceEnv} {call : RouteCall}

/-- The call is one of the project `p`, and so is what it draws. -/
def Of (w : Ownership) (p : String) : RouteCall → Prop
  | .capture _ _ batch => DrawnFor w p batch
  | .context _ call => call.projectId = p
  | .chat _ orgId projectId _ _ _ reply =>
    projectId = p ∧ orgId = w.orgOf p ∧ ∀ packet, ∀ e ∈ reply packet, w.owner e.1 = p
  | .resolveConflict _ projectId _ _ | .forget _ projectId _ _ | .feedback _ projectId _ _
  | .resolveSubject projectId _ _ _ | .mergeSubjects projectId _ _ => projectId = p
  | .consolidateSubject scope _ _ => scope.projectId = p
  | .read projectId _ _ => ∀ q ∈ projectId, q = "" ∨ q = p
  | .projects projectIds => w.Shared (w.orgOf p) ∧ ∀ q ∈ projectIds, w.orgOf q = w.orgOf p

theorem commit_stays {β : Type} (answer : β → HttpResponse)
    {x : Except SubjectError (β × Memory)} (hs : s.Owned w)
    (h : ∀ b m', x = .ok (b, m') → s.memory.Stays w.owner p m') :
    s.Stays w p (commit s answer x).2 := by
  cases x with
  | ok result => exact .of_memory hs (h result.1 result.2 rfl)
  | error _ => exact .refl hs

theorem commit_only {β : Type} (answer : β → HttpResponse)
    {x y : Except SubjectError (β × Memory)}
    (h : x.map (Prod.map id (Memory.only t.projects)) = y) :
    commit (s.only t) answer y = Prod.map id (Service.only t) (commit s answer x) := by
  subst h
  cases x <;> rfl

/-- A route stays in its project. -/
theorem answer_stays (hof : call.Of w p) (hs : s.Owned w) :
    s.Stays w p (call.answer senv s).2 := by
  have executed {request : Request} {m' : Memory} (h : request.exec senv.env s.memory = .ok m')
      (hof : request.Of w.owner p) : s.memory.Stays w.owner p m' :=
    Request.exec_stays hof hs.unique hs.memory h
  cases call with
  | capture batchKey now batch =>
    rw [answer]
    split
    · next response s' h => exact Service.capture_stays hs hof h
    · exact .refl hs
  | context reader call =>
    rw [answer]
    split
    · next built m' h =>
      exact .of_memory hs (Memory.context_stays senv.env hof hs.unique hs.memory h)
    · exact .refl hs
  | chat reader orgId projectId turn now traceId reply =>
    obtain ⟨rfl, rfl, hreply⟩ := hof
    exact Service.chat_stays hs hreply
  | resolveConflict now projectId id kept =>
    refine commit_stays _ hs fun _ m' h ↦ ?_
    obtain ⟨ledger, h₁, h⟩ := bind_eq_ok.mp h
    cases h
    have hexec : Request.exec senv.env s.memory (.resolveConflict now projectId id kept) =
        .ok { s.memory with ledger := ledger } := by
      rw [Request.exec, h₁]
      rfl
    exact executed hexec hof
  | forget now projectId mode target =>
    cases hof
    rw [answer]
    split
    · next counters s' h => exact Service.forget_stays senv.env hs h
    · exact .refl hs
  | feedback now projectId rating target =>
    refine commit_stays _ hs fun _ m' h ↦ ?_
    obtain ⟨m₁, h₁, h⟩ := bind_eq_ok.mp h
    cases h
    have hexec : Request.exec senv.env s.memory (.feedback now projectId target rating) = .ok _ :=
      h₁
    exact executed hexec hof
  | resolveSubject projectId aliasKind aliasValue canonicalSubjectId =>
    refine commit_stays _ hs fun _ m' h ↦ ?_
    obtain ⟨⟨row, created, aliases⟩, h₁, h⟩ := bind_eq_ok.mp h
    cases h
    have hexec : Request.exec senv.env s.memory
        (.resolveAlias projectId aliasKind aliasValue canonicalSubjectId) =
          .ok { s.memory with subjectAliases := aliases } := by
      rw [Request.exec, h₁]
      rfl
    exact executed hexec hof
  | mergeSubjects projectId source target =>
    refine commit_stays _ hs fun _ m' h ↦ ?_
    obtain ⟨⟨m₁, receipt⟩, h₁, h⟩ := bind_eq_ok.mp h
    cases h
    have hexec : Request.exec senv.env s.memory (.mergeSubjects projectId source target) =
        .ok m' := by
      rw [Request.exec, h₁]
      rfl
    exact executed hexec hof
  | consolidateSubject scope now extract =>
    cases hof
    exact Service.consolidateSubject_stays hs
  | read projectId subjectId route =>
    rw [answer]
    split <;> exact .refl hs
  | projects projectIds => exact .refl hs

/-- A route answers from what its project sees. -/
theorem answer_only (hof : call.Of w p) (ht : t.Closed w) (hk : t.projects p = true)
    (hs : s.Owned w) :
    call.answer senv (s.only t) = Prod.map id (Service.only t) (call.answer senv s) := by
  cases call with
  | capture batchKey now batch =>
    rw [answer, answer, ← Service.capture_only hs ht hof hk]
    cases s.capture senv batchKey now batch <;> rfl
  | context reader call =>
    cases hof
    have hcontext : (s.only t).memory.context reader call = _ :=
      (Memory.context_only hs.memory reader hk).symm
    rw [answer, answer, hcontext]
    cases s.memory.context reader call <;> rfl
  | chat reader orgId projectId turn now traceId reply =>
    obtain ⟨rfl, rfl, hreply⟩ := hof
    rw [answer, answer, Service.chat_only hs hreply hk]
    rfl
  | resolveConflict now projectId id kept =>
    cases hof
    have hledger : (Haki.resolveConflict now s.memory.ledger p id kept).map (Db.only t.projects) =
        Haki.resolveConflict now (s.only t).memory.ledger p id kept :=
      resolveConflict_only hs.unique hs.memory.ledger hk id kept
    apply commit_only
    rw [← hledger]
    cases h : Haki.resolveConflict now s.memory.ledger p id kept with
    | error _ => rfl
    | ok ledger =>
      have hids : (s.only t).memory.ledger.supersededIds id kept =
          s.memory.ledger.supersededIds id kept := supersededIds_only hs.memory.ledger hk h
      exact congrArg (fun ids ↦ Except.ok (ids, _)) hids.symm
  | forget now projectId mode target =>
    cases hof
    rw [answer, answer, ← Service.forget_only senv.env hs hk]
    cases s.forget now p mode target <;> rfl
  | feedback now projectId rating target =>
    cases hof
    have hfeedback : (s.only t).memory.submitFeedback now p target rating = _ :=
      (Memory.submitFeedback_only hs.unique hs.memory hk now target rating).symm
    apply commit_only
    rw [hfeedback]
    cases h : s.memory.submitFeedback now p target rating with
    | error _ => rfl
    | ok m' =>
      have hstays := Memory.submitFeedback_stays hs.unique hs.memory h
      have hstatus : target.factStatus (m'.only t.projects).ledger =
          target.factStatus m'.ledger := by
        refine factStatus_only hstays.owned.ledger hk fun id htarget ↦ ?_
        cases htarget
        obtain ⟨ledger, hledger, -⟩ := bind_eq_ok.mp h
        obtain ⟨f, hf, -⟩ := bind_eq_ok.mp (mapError_eq_ok.mp hledger)
        exact (getProjectFact_owner hs.memory.ledger hf).2
      exact congrArg (fun status ↦ Except.ok (status, _)) hstatus.symm
  | resolveSubject projectId aliasKind aliasValue canonicalSubjectId =>
    cases hof
    have haliases : _ = Haki.resolveAlias (s.only t).memory.subjectAliases p aliasKind aliasValue
        canonicalSubjectId true :=
      resolveAlias_only hk s.memory.subjectAliases aliasKind aliasValue canonicalSubjectId true
    apply commit_only
    rw [← haliases]
    cases Haki.resolveAlias s.memory.subjectAliases p aliasKind aliasValue canonicalSubjectId
      true <;> rfl
  | mergeSubjects projectId source target =>
    cases hof
    apply commit_only
    exact Memory.receipts_only hs.unique hk source target
  | consolidateSubject scope now extract =>
    cases hof
    rw [answer, answer, Service.consolidateSubject_only hs hk]
    rfl
  | read projectId subjectId route =>
    have hproject : ∀ q ∈ projectId, q = "" ∨ t.projects q = true :=
      fun q hq ↦ (hof q hq).imp_right fun h ↦ (congrArg t.projects h).trans hk
    have hread : route.answer (s.only t).memory projectId subjectId = _ :=
      Read.answer_only hs.memory hproject subjectId route
    rw [answer, answer, hread]
    cases route.answer s.memory projectId subjectId <;> rfl
  | projects projectIds =>
    obtain ⟨hshared, hids⟩ := hof
    have hrow : ∀ q ∈ projectIds,
        (s.only t).memory.ledger.projectOut q = s.memory.ledger.projectOut q := by
      intro q hq
      apply projectOut_only
      rw [ht q ((hids q hq).symm ▸ hshared), hids q hq, ← ht p hshared]
      exact hk
    rw [answer, answer, List.map_congr_left hrow]
    rfl

end RouteCall

/-! ## Steps -/

namespace ServiceStep

variable {w : Ownership} {t : Tenants}

/-- The step is a call of the project it is made for, or a run of the whole queue. -/
def Of (w : Ownership) : ServiceStep → Prop
  | .call projectId route => route.Of w projectId
  | .poll _ _ => True

/-- The step is a call of the tenants. -/
def told (t : Tenants) : ServiceStep → Bool
  | .call projectId _ => t.projects projectId
  | .poll _ _ => false

/-- The step is a call of the tenants, or a run of the whole queue. -/
def seen (t : Tenants) : ServiceStep → Bool
  | .call projectId _ => t.projects projectId
  | .poll _ _ => true

/-- The tenants see what only their own calls and the runs of the queue change. -/
theorem unwinds (senv : ServiceEnv) (ht : t.Closed w) :
    Unwinds (fun s (step : ServiceStep) ↦ step.answer senv s) (Service.only t) (seen t) (told t)
      (Service.Owned w) (Of w) := by
  constructor
  case inv =>
    intro s step hs hof
    cases step with
    | call projectId call => exact (RouteCall.answer_stays hof hs).owned
    | poll now extract => exact Service.poll_owned hs
  case hidden =>
    intro s step hs hof hseen
    cases step with
    | call projectId call => exact (RouteCall.answer_stays hof hs).confined t ht hseen
    | poll now extract => cases hseen
  case kept =>
    intro s step hs hof hseen
    cases step with
    | call projectId call => exact congrArg Prod.snd (RouteCall.answer_only hof ht hseen hs)
    | poll now extract => exact Service.poll_only hs
  case answer =>
    intro s step hs hof htold
    cases step with
    | call projectId call =>
      have hanswer : (call.answer senv (s.only t)).1 = (call.answer senv s).1 :=
        (congrArg Prod.fst (RouteCall.answer_only hof ht htold hs)).trans (Prod.map_fst _ _ _)
      exact ⟨htold, hanswer⟩
    | poll now extract => cases htold

end ServiceStep

end Haki
