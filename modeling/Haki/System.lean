import Haki.Api.Conflicts
import Haki.Consolidator.Step
import Haki.Ledger.Forget

/-!
# The ledger as a state machine

`Op` lists the operations that write the tables of the ledger, each with its
own transaction time.  An operation that fails is rolled back, so a run is a
total function of the state and the list of operations.  `Invariant` collects
what has to be shown once for each kind of operation, and
`Invariant.run` turns it into a fact about every state of every run.
-/

namespace Haki

open Data Control

/-- A write to the ledger. -/
inductive Op where
  /-- `POST /v1/capture` of one new event. -/
  | capture (event : Event)
  /-- One consolidate job. -/
  | consolidate (now : Timestamp) (extract : Extractor) (eventIds : List EventId)
      (only : Option (List EventId))
  /-- `POST /v1/conflicts/{id}/resolve`. -/
  | resolve (now : Timestamp) (projectId : String) (id : ConflictId) (keep : FactId)
  /-- `POST /v1/forget` of a fact. -/
  | forgetFact (now : Timestamp) (projectId : String) (id : FactId) (mode : ForgetMode)
  /-- `POST /v1/forget` of a subject. -/
  | forgetSubject (now : Timestamp) (scope : Scope) (mode : ForgetMode)
  /-- `POST /v1/feedback` on a fact. -/
  | feedback (now : Timestamp) (projectId : String) (id : FactId) (rating : Rating)
  /-- `POST /v1/context` journals the packet it served. -/
  | serve (trace : ContextTrace)

namespace Op

/-- Runs of consolidations. -/
def IsConsolidation : Op → Prop
  | .capture _ | .consolidate _ _ _ _ | .serve _ => True
  | _ => False

/-- Runs of consolidations and conflict resolutions. -/
def IsConsolidationOrResolution : Op → Prop
  | .capture _ | .consolidate _ _ _ _ | .serve _ | .resolve _ _ _ _ => True
  | _ => False

/-- Runs without a conflict resolution. -/
def IsNotResolution : Op → Prop
  | .resolve _ _ _ _ => False
  | _ => True

/-- Runs without feedback. -/
def IsNotFeedback : Op → Prop
  | .feedback _ _ _ _ => False
  | _ => True

/-- The transaction of an operation. -/
def exec (env : Env) (db : Db) : Op → Except LedgerError Db
  | .capture event => .ok { db with events := db.events.insert event }
  | .consolidate now extract eventIds only =>
    (processJob (env.at now) extract db eventIds only).map Prod.fst
  | .resolve now projectId id keep => resolveConflict now db projectId id keep
  | .forgetFact now projectId id mode => Haki.forgetFact now db projectId id mode
  | .forgetSubject now scope mode => Haki.forgetSubject now db scope mode
  | .feedback now projectId id rating => submitFeedback now db projectId id rating
  | .serve trace => .ok { db with contextTraces := db.contextTraces ++ [trace] }

/-- The state after an operation: a failed transaction is rolled back. -/
def run (env : Env) (db : Db) (op : Op) : Db :=
  match op.exec env db with
  | .ok db' => db'
  | .error _ => db

/-- The condition `C` holds of every candidate the operation applies. -/
def Meets (env : Env) (C : Env → Event → Db → Candidate → Prop) (db : Db) : Op → Prop
  | .consolidate now extract eventIds only =>
    JobMeets (env.at now) extract (C (env.at now)) db eventIds only
  | _ => True

instance (env : Env) (C : Env → Event → Db → Candidate → Prop)
    [∀ env event db c, Decidable (C env event db c)] (db : Db) (op : Op) :
    Decidable (op.Meets env C db) :=
  match op with
  | .consolidate now extract eventIds only =>
    inferInstanceAs (Decidable (JobMeets (env.at now) extract (C (env.at now)) db eventIds only))
  | .capture _ | .resolve _ _ _ _ | .forgetFact _ _ _ _ | .forgetSubject _ _ _
  | .feedback _ _ _ _ | .serve _ => isTrue trivial

end Op

/-- The condition that always holds is met. -/
theorem Op.meets_true (op : Op) (env : Env) (db : Db) :
    op.Meets env (fun _ _ _ _ ↦ True) db := by
  cases op with
  | consolidate now extract eventIds only =>
    exact foldMeets_of_forall (fun _ _ _ _ ↦ foldMeets_of_forall (fun _ _ _ ↦ trivial) _ _) _ _
  | _ => trivial

/-- The state after a list of operations. -/
def runOps (env : Env) (db : Db) (ops : List Op) : Db := ops.foldl (Op.run env) db

/-- Every operation of a run meets `C`, in the state it is run in. -/
def RunMeets (env : Env) (C : Env → Event → Db → Candidate → Prop) (db : Db) (ops : List Op) :
    Prop :=
  FoldMeets (fun db op ↦ (.ok (Op.run env db op) : Except LedgerError Db)) (Op.Meets env C) db ops

instance (env : Env) (C : Env → Event → Db → Candidate → Prop)
    [∀ env event db c, Decidable (C env event db c)] (db : Db) (ops : List Op) :
    Decidable (RunMeets env C db ops) :=
  inferInstanceAs (Decidable (FoldMeets _ _ _ _))

/-- What follows from conditions a run meets is met. -/
theorem runMeets_of_forall_meets {env : Env} {ι : Type}
    {C : ι → Env → Event → Db → Candidate → Prop} {D : Env → Event → Db → Candidate → Prop}
    (hCD : ∀ env event db c, (∀ i, C i env event db c) → D env event db c) {db : Db}
    {ops : List Op} (h : ∀ i, RunMeets env (C i) db ops) : RunMeets env D db ops := by
  refine foldMeets_of_forall_meets (C := fun i ↦ Op.Meets env (C i)) (fun db op h ↦ ?_) h
  cases op with
  | consolidate now extract eventIds only => exact jobMeets_of_forall_meets (hCD _) h
  | _ => trivial

/-- Every operation of a run meets `O`, in the state it is run in. -/
def StepsMeet (env : Env) (O : Db → Op → Prop) (db : Db) (ops : List Op) : Prop :=
  FoldMeets (fun db op ↦ (.ok (Op.run env db op) : Except LedgerError Db)) O db ops

instance (env : Env) (O : Db → Op → Prop) [∀ db op, Decidable (O db op)] (db : Db)
    (ops : List Op) : Decidable (StepsMeet env O db ops) :=
  inferInstanceAs (Decidable (FoldMeets _ _ _ _))

theorem stepsMeet_concat {env : Env} {O : Db → Op → Prop} {db : Db} {ops : List Op} {op : Op} :
    StepsMeet env O db (ops ++ [op]) ↔ StepsMeet env O db ops ∧ O (runOps env db ops) op := by
  induction ops generalizing db with
  | nil => exact ⟨fun h ↦ ⟨trivial, h.1⟩, fun h ↦ ⟨h.2, fun _ _ ↦ trivial⟩⟩
  | cons first ops ih =>
    constructor
    · rintro ⟨hfirst, hrest⟩
      obtain ⟨hops, hop⟩ := ih.mp (hrest _ rfl)
      exact ⟨⟨hfirst, fun _ heq ↦ Except.ok.inj heq ▸ hops⟩, hop⟩
    · rintro ⟨⟨hfirst, hrest⟩, hop⟩
      exact ⟨hfirst, fun _ heq ↦ Except.ok.inj heq ▸ ih.mpr ⟨hrest _ rfl, hop⟩⟩

/-- What an operation meeting `O` preserves, a run of such operations preserves. -/
theorem runOps_invariant {env : Env} {O : Db → Op → Prop} {I : Db → Prop}
    (hstep : ∀ db op, I db → O db op → I (op.run env db)) {db : Db} {ops : List Op} (hI : I db)
    (h : StepsMeet env O db ops) : I (runOps env db ops) := by
  induction ops generalizing db with
  | nil => exact hI
  | cons op ops ih => exact ih (hstep db op hI h.1) (h.2 _ rfl)

/-- The states reachable from the empty ledger by operations of a kind. -/
def Reachable (env : Env) (allowed : Op → Prop) (db : Db) : Prop :=
  ∃ ops : List Op, (∀ op ∈ ops, allowed op) ∧ runOps env .empty ops = db

theorem consolidate_eq_ok {env : Env} {db db' : Db} {now : Timestamp} {extract : Extractor}
    {eventIds : List EventId} {only : Option (List EventId)}
    (h : (Op.consolidate now extract eventIds only).exec env db = .ok db') :
    ∃ state, processJob (env.at now) extract db eventIds only = .ok state ∧ state.1 = db' := by
  simp only [Op.exec] at h
  cases hjob : processJob (env.at now) extract db eventIds only with
  | error _ => simp [hjob, Except.map] at h
  | ok state =>
    rw [hjob] at h
    exact ⟨state, rfl, Except.ok.inj h⟩

/-! ## The index holds in every state -/

section UniqueActive

variable {now : Timestamp} {db db' : Db}

theorem Db.UniqueActive.filter (hu : db.UniqueActive) (p : Fact → Bool) :
    ({ db with facts := db.facts.filter p } : Db).UniqueActive :=
  hu.of_current fun f hf hc ↦ ⟨f, (Table.mem_filter.mp hf).1, hc, rfl, rfl, rfl, rfl⟩

theorem transitionFactStatus_unique {id : FactId} {target : FactStatus}
    (h : transitionFactStatus now db id target = .ok db') : db'.UniqueActive :=
  (transitionFactStatus_eq_ok h).choose_spec.2.2.2

/-- An update that keeps the columns of the index, the status and the form. -/
theorem Db.UniqueActive.update_same (hu : db.UniqueActive) {id : FactId} {g : Fact → Fact}
    (hg : ∀ f, (g f).id = f.id ∧ (g f).scope = f.scope ∧ (g f).predicate = f.predicate ∧
      (g f).qualifiers = f.qualifiers ∧ (g f).status = f.status ∧
        (g f).memoryForm = f.memoryForm) :
    (db.updateFact id g).UniqueActive := by
  refine hu.of_current fun f hf hc ↦ ?_
  obtain ⟨a, ha, rfl⟩ := (Db.mem_updateFact fun f ↦ (hg f).1).mp hf
  obtain ⟨hi, hs, hp, hq, hst, hm⟩ := hg a
  refine ⟨a, ha, ?_, ?_⟩
  · split at hc
    · exact ⟨hst ▸ hc.1, hm ▸ hc.2⟩
    · exact hc
  · split
    · exact ⟨hi.symm, hs.symm, hp.symm, hq.symm⟩
    · exact ⟨rfl, rfl, rfl, rfl⟩

theorem applyCandidate_unique {env : Env} {c : Candidate} {embedding : Embedding} {event : Event}
    {result result' : JobResult} (hu : db.UniqueActive)
    (h : applyCandidate env db c embedding event result = .ok (db', result')) :
    db'.UniqueActive := by
  cases applyCandidate_applied hu h with
  | counted => exact hu
  | reinforced =>
    exact Db.UniqueActive.update_same hu fun _ ↦ ⟨rfl, rfl, rfl, rfl, rfl, rfl⟩
  | written _ _ _ _ _ _ _ hu' => exact hu'

theorem applyAdmitted_unique {env : Env} {event : Event} {state state' : Db × JobResult}
    {c : Candidate} (hu : state.1.UniqueActive)
    (h : applyAdmitted env event state c = .ok state') : state'.1.UniqueActive := by
  rcases applyAdmitted_cases h with ⟨_, -, rfl⟩ | ⟨-, h⟩
  · exact hu
  · exact applyCandidate_unique hu h

theorem processEvent_unique {env : Env} {extract : Extractor} {event : Event}
    {state state' : Db × JobResult} (hu : state.1.UniqueActive)
    (h : processEvent env extract state event = .ok state') : state'.1.UniqueActive :=
  processEvent_invariant (C := fun _ _ _ ↦ True) (fun _ _ hu ↦ hu)
    (fun _ _ _ _ _ hu _ h ↦ applyCandidate_unique hu h) hu
    (fun _ _ ↦ foldMeets_of_forall (fun _ _ _ ↦ trivial) _ _) h

theorem processJob_unique {env : Env} {extract : Extractor} {eventIds : List EventId}
    {only : Option (List EventId)} {state' : Db × JobResult} (hu : db.UniqueActive)
    (h : processJob env extract db eventIds only = .ok state') : state'.1.UniqueActive :=
  processJob_invariant (C := fun _ _ _ ↦ True) (fun _ _ hu ↦ hu)
    (fun _ _ _ _ _ _ hu _ h ↦ applyCandidate_unique hu h) hu
    (foldMeets_of_forall (fun _ _ _ _ ↦ foldMeets_of_forall (fun _ _ _ ↦ trivial) _ _) _ _) h

theorem resolveMember_unique {keep id : FactId} (hu : db.UniqueActive)
    (h : resolveMember now keep db id = .ok db') : db'.UniqueActive := by
  rw [resolveMember] at h
  split at h
  · obtain ⟨f, -, ⟨-, rfl⟩ | ⟨-, -, -, -, hu'⟩⟩ := keepMember_eq_ok h
    · exact hu
    · exact hu'
  · obtain ⟨f, -, ⟨-, rfl⟩ | ⟨-, rfl, -⟩⟩ := loseMember_eq_ok h
    · exact hu
    · exact hu.updateFact (Fact.lostTo_id · keep now) fun _ _ _ h ↦ by cases h.1

/-- Every operation leaves a ledger that meets the partial unique index. -/
theorem Op.exec_unique {env : Env} {op : Op} (hu : db.UniqueActive)
    (h : op.exec env db = .ok db') : db'.UniqueActive := by
  cases op with
  | capture event =>
    cases h
    exact hu
  | consolidate now extract eventIds only =>
    obtain ⟨state, hjob, rfl⟩ := consolidate_eq_ok h
    exact processJob_unique hu hjob
  | resolve now projectId id keep =>
    obtain ⟨conflict, db₁, -, -, -, h₁, rfl⟩ := resolveConflict_eq_ok h
    have hu₁ : db₁.UniqueActive := foldlM_preserves (fun _ _ _ ↦ resolveMember_unique) hu h₁
    exact hu₁
  | forgetFact now projectId id mode =>
    rcases forgetFact_eq_ok h with rfl | ⟨-, rfl⟩
    · exact hu
    · refine hu.updateFact (Fact.forgotten_id mode now) fun f _ _ hc ↦ ?_
      rw [Fact.Current, Fact.forgotten_status] at hc
      cases mode <;> cases hc.1
  | forgetSubject now scope mode =>
    cases mode with
    | disable =>
      exact foldlM_preserves (I := Db.UniqueActive) (fun _ _ _ _ ↦ transitionFactStatus_unique) hu h
    | delete =>
      cases h
      exact hu.filter _
  | feedback now projectId id rating =>
    rcases submitFeedback_eq_ok h with rfl | ⟨-, rfl⟩
    · exact hu
    · exact hu.updateFact (Fact.moveTo_id · _ now) fun _ _ _ hc ↦ by cases hc.1
  | serve trace =>
    cases h
    exact hu

end UniqueActive

/-! ## Operations that retire facts -/

/-- What forget and feedback leave of a fact. -/
def Fact.record (f : Fact) : Fact :=
  { f with
    status := .candidate
    recordedTo := none
    version := 0
    embedding := none
    searchText := none }

/-- The fact went out of service. -/
structure Fact.Withdrawn (f f' : Fact) : Prop where
  status : f'.status ≠ .active
  record : f'.record = f.record

theorem Fact.Withdrawn.id {f f' : Fact} (h : f.Withdrawn f') : f'.id = f.id :=
  (congrArg Fact.id h.record : f'.record.id = f.record.id)

theorem Fact.Withdrawn.scope {f f' : Fact} (h : f.Withdrawn f') : f'.scope = f.scope :=
  (congrArg Fact.scope h.record : f'.record.scope = f.record.scope)

theorem Fact.Withdrawn.memoryForm {f f' : Fact} (h : f.Withdrawn f') :
    f'.memoryForm = f.memoryForm :=
  (congrArg Fact.memoryForm h.record : f'.record.memoryForm = f.record.memoryForm)

theorem Fact.withdrawn_moveTo (f : Fact) {target : FactStatus} (h : target ≠ .active)
    (now : Timestamp) : f.Withdrawn (f.moveTo target now) := ⟨h, rfl⟩

theorem Fact.withdrawn_forgotten (f : Fact) (mode : ForgetMode) (now : Timestamp) :
    f.Withdrawn (f.forgotten mode now) := by
  refine ⟨?_, ?_⟩
  · rw [Fact.forgotten_status]
    cases mode <;> simp [ForgetMode.target]
  · rw [Fact.forgotten]
    split <;> rfl

/-- Facts only go out of service, and conflict sets at most disappear. -/
structure Db.Retires (db db' : Db) : Prop where
  facts : ∀ f' ∈ db'.facts, ∃ f ∈ db.facts, f.id = f'.id ∧ f.scope = f'.scope ∧
    f.originTrust = f'.originTrust ∧ (f'.status = .active → f.status = .active)
  conflictSets : ∀ s ∈ db'.conflictSets, s ∈ db.conflictSets

namespace Db.Retires

theorem refl (db : Db) : db.Retires db :=
  ⟨fun f hf ↦ ⟨f, hf, rfl, rfl, rfl, id⟩, fun _ hs ↦ hs⟩

theorem trans {db₁ db₂ db₃ : Db} (h : db₁.Retires db₂) (h' : db₂.Retires db₃) :
    db₁.Retires db₃ := by
  refine ⟨fun f₃ hf₃ ↦ ?_, fun s hs ↦ h.conflictSets s (h'.conflictSets s hs)⟩
  obtain ⟨f₂, hf₂, hid₂, hscope₂, htrust₂, hstatus₂⟩ := h'.facts f₃ hf₃
  obtain ⟨f₁, hf₁, hid₁, hscope₁, htrust₁, hstatus₁⟩ := h.facts f₂ hf₂
  exact ⟨f₁, hf₁, hid₁.trans hid₂, hscope₁.trans hscope₂, htrust₁.trans htrust₂,
    fun ha ↦ hstatus₁ (hstatus₂ ha)⟩

/-- One fact is withdrawn. -/
theorem updateFact {db : Db} {id : FactId} {g : Fact → Fact} (hg : ∀ f : Fact, f.Withdrawn (g f)) :
    db.Retires (db.updateFact id g) := by
  refine ⟨fun f' hf' ↦ ?_, fun _ hs ↦ hs⟩
  obtain ⟨f, hf, rfl⟩ := (Db.mem_updateFact fun f ↦ (hg f).id).mp hf'
  refine ⟨f, hf, ?_⟩
  split
  · exact ⟨(hg f).id.symm, (hg f).scope.symm,
      (congrArg Fact.originTrust (hg f).record).symm, fun ha ↦ absurd ha (hg f).status⟩
  · exact ⟨rfl, rfl, rfl, fun ha ↦ ha⟩

/-- The rows of a subject are erased. -/
theorem deleteSubject (db : Db) (scope : Scope) : db.Retires (Haki.deleteSubject db scope) :=
  ⟨fun f hf ↦ ⟨f, (Table.mem_filter.mp hf).1, rfl, rfl, rfl, id⟩,
    fun _ hs ↦ (Table.mem_filter.mp hs).1⟩

end Db.Retires

/-- **Forget rule.**  What withdrawing one fact and erasing a subject preserve, forget and feedback
preserve. -/
theorem Op.exec_withdraws {env : Env} {I : Db → Prop}
    (hupdate : ∀ db id g, (∀ f : Fact, f.Withdrawn (g f)) → I db → I (db.updateFact id g))
    (hdelete : ∀ db scope, I db → I (deleteSubject db scope)) {op : Op} {db db' : Db}
    (hop : ¬ op.IsConsolidation) (hres : op.IsNotResolution) (hI : I db)
    (h : op.exec env db = .ok db') : I db' := by
  cases op with
  | capture | consolidate | serve => exact absurd trivial hop
  | resolve => exact absurd hres id
  | forgetFact now projectId id mode =>
    rcases forgetFact_eq_ok h with rfl | ⟨-, rfl⟩
    · exact hI
    · exact hupdate db id _ (Fact.withdrawn_forgotten · mode now) hI
  | forgetSubject now scope mode =>
    cases mode with
    | disable =>
      refine foldlM_preserves (I := I) (fun db₁ id db₂ hI h ↦ ?_) hI h
      obtain ⟨-, -, -, rfl, -⟩ := transitionFactStatus_eq_ok h
      exact hupdate db₁ id _ (Fact.withdrawn_moveTo · (by simp) now) hI
    | delete =>
      cases h
      exact hdelete db scope hI
  | feedback now projectId id rating =>
    rcases submitFeedback_eq_ok h with rfl | ⟨-, rfl⟩
    · exact hI
    · exact hupdate db id _ (Fact.withdrawn_moveTo · (by simp) now) hI

/-- Forget and feedback only retire facts. -/
theorem Op.exec_retires {env : Env} {op : Op} {db db' : Db} (hop : ¬ op.IsConsolidation)
    (hres : op.IsNotResolution) (h : op.exec env db = .ok db') : db.Retires db' :=
  Op.exec_withdraws (I := db.Retires) (fun _ _ _ hg hI ↦ hI.trans (.updateFact hg))
    (fun db₁ scope hI ↦ hI.trans (.deleteSubject db₁ scope)) hop hres (.refl db) h

/-! ## Invariants of runs -/

/-- What has to be shown of `I` so that it holds in every state of every run of `allowed`
operations all of whose applied candidates meet `C`. -/
structure Invariant (env : Env) (allowed : Op → Prop) (C : Env → Event → Db → Candidate → Prop)
    (I : Db → Prop) : Prop where
  /-- It holds of the empty ledger. -/
  empty : I .empty
  /-- It is about neither events nor traces. -/
  frame : ∀ db events traces, I db → I { db with events := events, contextTraces := traces }
  /-- Applying a candidate keeps it. -/
  candidate : ∀ now event db c result db' result', db.UniqueActive → I db →
    C (env.at now) event db c →
    applyCandidate (env.at now) db c (candidateEmbedding (env.at now) c) event result =
      .ok (db', result') → I db'
  /-- The operations on facts and conflict sets keep it. -/
  other : ∀ db op db', ¬ op.IsConsolidation → allowed op → db.UniqueActive → I db →
    op.exec env db = .ok db' → I db'

namespace Invariant

variable {env : Env} {allowed : Op → Prop} {C : Env → Event → Db → Candidate → Prop}
  {I : Db → Prop}

theorem exec (hI : Invariant env allowed C I) {db db' : Db} {op : Op} (hop : allowed op)
    (hu : db.UniqueActive) (h : I db) (hC : op.Meets env C db) (he : op.exec env db = .ok db') :
    I db' := by
  cases op with
  | capture event =>
    cases he
    exact hI.frame db _ _ h
  | serve trace =>
    cases he
    exact hI.frame db _ _ h
  | consolidate now extract eventIds only =>
    obtain ⟨state, hjob, rfl⟩ := consolidate_eq_ok he
    exact (processJob_invariant (I := fun db ↦ db.UniqueActive ∧ I db)
      (fun db _ h ↦ ⟨h.1, hI.frame db _ _ h.2⟩)
      (fun event db c result db' result' h hC ha ↦ ⟨applyCandidate_unique h.1 ha,
        hI.candidate now event db c result db' result' h.1 h.2 hC ha⟩) ⟨hu, h⟩ hC hjob).2
  | resolve now projectId id keep => exact hI.other db _ db' (by rintro ⟨⟩) hop hu h he
  | forgetFact now projectId id mode => exact hI.other db _ db' (by rintro ⟨⟩) hop hu h he
  | forgetSubject now scope mode => exact hI.other db _ db' (by rintro ⟨⟩) hop hu h he
  | feedback now projectId id rating => exact hI.other db _ db' (by rintro ⟨⟩) hop hu h he

/-- **Run rule.**  An invariant holds in every state of a run, and so does the index. -/
theorem run (hI : Invariant env allowed C I) {ops : List Op} (hops : ∀ op ∈ ops, allowed op)
    (hC : RunMeets env C .empty ops) :
    (runOps env .empty ops).UniqueActive ∧ I (runOps env .empty ops) := by
  suffices ∀ db : Db, db.UniqueActive → I db → RunMeets env C db ops →
      (runOps env db ops).UniqueActive ∧ I (runOps env db ops) from
    this .empty (by rintro _ ⟨⟩) hI.empty hC
  clear hC
  induction ops with
  | nil => exact fun db hu h _ ↦ ⟨hu, h⟩
  | cons op ops ih =>
    intro db hu h hC
    obtain ⟨hop, hops⟩ := List.forall_mem_cons.mp hops
    refine ih hops (op.run env db) ?_ ?_ (hC.2 _ rfl)
    · rw [Op.run]
      split
      · next db' he => exact Op.exec_unique hu he
      · exact hu
    · rw [Op.run]
      split
      · next db' he => exact hI.exec hop hu h hC.1 he
      · exact h

/-- The run rule for invariants without a condition on candidates. -/
theorem reachable (hI : Invariant env allowed (fun _ _ _ _ ↦ True) I) {db : Db}
    (h : Reachable env allowed db) : db.UniqueActive ∧ I db := by
  obtain ⟨ops, hops, rfl⟩ := h
  exact hI.run hops (foldMeets_of_forall (fun db op ↦ op.meets_true env db) _ _)

end Invariant

/-- Every reachable ledger meets the partial unique index. -/
theorem Reachable.unique {env : Env} {allowed : Op → Prop} {db : Db}
    (h : Reachable env allowed db) : db.UniqueActive := by
  have hI : Invariant env allowed (fun _ _ _ _ ↦ True) fun _ ↦ True :=
    ⟨trivial, fun _ _ _ _ ↦ trivial, fun _ _ _ _ _ _ _ _ _ _ _ ↦ trivial,
      fun _ _ _ _ _ _ _ _ ↦ trivial⟩
  exact (hI.reachable h).1

end Haki
