import Haki.Frame
import Haki.Ledger.Subjects

/-!
# Requests on the memory of subjects

`Request` lists the requests that write a table with a subject in it.  A
request that fails is rolled back.  Every request but a merge does to the
ledger what an `Op` does, or nothing (`Request.exec_ledger`), and a merge that
succeeds keeps the partial unique index, so the index holds in every state.

A request that neither merges nor erases a subject only adds rows
(`Request.exec_extends`): rows of a subject it names, of one that has events, or
of one that an alias resolves to.
-/

namespace Haki

open Data Control

/-- A request that writes the memory of subjects. -/
inductive Request where
  /-- `POST /v1/capture` of one new event, its subject given by id or by an alias. -/
  | capture (event : Event) (subjectAlias : Option (String × String))
  /-- One consolidate job. -/
  | consolidate (now : Timestamp) (extract : Extractor) (eventIds : List EventId)
      (only : Option (List EventId))
  /-- `POST /v1/conflicts/{id}/resolve`. -/
  | resolveConflict (now : Timestamp) (projectId : String) (id : ConflictId) (keep : FactId)
  /-- `POST /v1/forget` of a fact. -/
  | forgetFact (now : Timestamp) (projectId : String) (id : FactId) (mode : ForgetMode)
  /-- `POST /v1/forget` of a subject. -/
  | forgetSubject (now : Timestamp) (scope : Scope) (mode : ForgetMode)
  /-- `POST /v1/feedback`. -/
  | feedback (now : Timestamp) (projectId : String) (target : FeedbackTarget) (rating : Rating)
  /-- `POST /v1/context` journals the packet it served. -/
  | context (trace : ContextTrace)
  /-- `POST /v1/subjects/resolve`. -/
  | resolveAlias (projectId aliasKind aliasValue : String) (canonicalSubjectId : Option String)
  /-- `POST /v1/subjects/merge`. -/
  | mergeSubjects (projectId source target : String)

namespace Request

/-- The transaction of a request. -/
def exec (env : Env) (m : Memory) : Request → Except SubjectError Memory
  | .capture event subjectAlias => m.capture event subjectAlias
  | .consolidate now extract eventIds only => m.consolidate (env.at now) extract eventIds only
  | .resolveConflict now projectId id keep => do
    let ledger ← (Haki.resolveConflict now m.ledger projectId id keep).mapError .ledger
    pure { m with ledger := ledger }
  | .forgetFact now projectId id mode => do
    let ledger ← (Haki.forgetFact now m.ledger projectId id mode).mapError .ledger
    pure { m with ledger := ledger }
  | .forgetSubject now scope mode => m.forgetSubject now scope mode
  | .feedback now projectId target rating => m.submitFeedback now projectId target rating
  | .context trace =>
    .ok { m with ledger := { m.ledger with contextTraces := m.ledger.contextTraces ++ [trace] } }
  | .resolveAlias projectId aliasKind aliasValue canonicalSubjectId => do
    let (_, _, aliases) ←
      Haki.resolveAlias m.subjectAliases projectId aliasKind aliasValue canonicalSubjectId true
    pure { m with subjectAliases := aliases }
  | .mergeSubjects projectId source target =>
    (m.mergeSubjects projectId source target).map Prod.fst

/-- The state after a request: a failed transaction is rolled back. -/
def run (env : Env) (m : Memory) (request : Request) : Memory :=
  match request.exec env m with
  | .ok m' => m'
  | .error _ => m

end Request

/-- The state after a list of requests. -/
def runRequests (env : Env) (m : Memory) (requests : List Request) : Memory :=
  requests.foldl (Request.run env) m

theorem runRequests_append (env : Env) (m : Memory) (requests later : List Request) :
    runRequests env m (requests ++ later) = runRequests env (runRequests env m requests) later :=
  List.foldl_append

/-- The states reachable from the empty memory. -/
def Memory.Reachable (env : Env) (m : Memory) : Prop :=
  ∃ requests : List Request, runRequests env .empty requests = m

/-- What a request preserves, a run preserves. -/
theorem runRequests_invariant {env : Env} {I : Memory → Prop} {requests : List Request}
    (hstep : ∀ request ∈ requests, ∀ m m', I m → request.exec env m = .ok m' → I m') {m : Memory}
    (hI : I m) : I (runRequests env m requests) := by
  induction requests generalizing m with
  | nil => exact hI
  | cons request requests ih =>
    obtain ⟨hrequest, hrequests⟩ := List.forall_mem_cons.mp hstep
    refine ih hrequests ?_
    rw [Request.run]
    split
    · next m' h => exact hrequest m m' hI h
    · exact hI

/-- Every request of a run meets a condition in the state it finds. -/
def RequestsMeet (env : Env) (C : Memory → Request → Prop) : Memory → List Request → Prop
  | _, [] => True
  | m, request :: requests => C m request ∧ RequestsMeet env C (request.run env m) requests

instance (env : Env) (C : Memory → Request → Prop) [∀ m request, Decidable (C m request)] :
    ∀ m requests, Decidable (RequestsMeet env C m requests)
  | _, [] => isTrue trivial
  | m, request :: requests =>
    have := instDecidableRequestsMeet env C (request.run env m) requests
    inferInstanceAs (Decidable (_ ∧ _))

/-- What a request that meets the condition preserves, a run of such requests preserves. -/
theorem RequestsMeet.invariant {env : Env} {C : Memory → Request → Prop} {I : Memory → Prop}
    {requests : List Request}
    (hstep : ∀ request m m', I m → C m request → request.exec env m = .ok m' → I m') {m : Memory}
    (h : RequestsMeet env C m requests) (hI : I m) : I (runRequests env m requests) := by
  induction requests generalizing m with
  | nil => exact hI
  | cons request requests ih =>
    obtain ⟨hrequest, hrequests⟩ := h
    refine ih hrequests ?_
    rw [Request.run]
    split
    · next m' he => exact hstep request m m' hI hrequest he
    · exact hI

/-! ## What a request does -/

section

variable {env : Env} {m m' : Memory}

theorem map_eq_ok {ε β γ : Type} {g : β → γ} {x : Except ε β} {c : γ} :
    x.map g = .ok c ↔ ∃ b, x = .ok b ∧ g b = c := by
  cases x <;> simp [Except.map]

theorem mapError_eq_ok {ε δ β : Type} {g : ε → δ} {x : Except ε β} {b : β} :
    x.mapError g = .ok b ↔ x = .ok b := by
  cases x <;> simp [Except.mapError]

/-- A merge that succeeds: the index holds of the moved ledger. -/
theorem Memory.mergeSubjects_eq_ok {projectId source target : String}
    {receipt : SubjectMergeReceipt}
    (h : m.mergeSubjects projectId source target = .ok (m', receipt)) :
    (source ≠ "" ∧ target ≠ "" ∧ source ≠ target) ∧
    (m.ledger.rescoped (Scope.merge projectId source target)).UniqueActive ∧
    receipt = m.receipt projectId source target ∧
    m' = { m with
      ledger := m.ledger.rescoped (Scope.merge projectId source target)
      episodeChunks := m.episodeChunks.modify (rescope (Scope.merge projectId source target))
      subjectAliases :=
        (m.subjectAliases.modify (SubjectAlias.repoint projectId source target)).insert
          ⟨projectId, tombstoneKind, source, target⟩
      mergeReceipts := m.mergeReceipts ++ [m.receipt projectId source target] } := by
  rw [Memory.mergeSubjects] at h
  split at h
  · cases h
  · next hvalid =>
    obtain ⟨ledger, hflush, h⟩ := bind_eq_ok.mp h
    obtain ⟨rfl, hunique⟩ := flush_eq_ok.mp (mapError_eq_ok.mp hflush)
    cases h
    simp only [not_or] at hvalid
    exact ⟨hvalid, hunique, rfl, rfl⟩

/-- A merge between two subjects succeeds when the index allows it. -/
theorem Memory.mergeSubjects_of_unique {projectId source target : String} (hs : source ≠ "")
    (ht : target ≠ "") (hst : source ≠ target)
    (h : (m.ledger.rescoped (Scope.merge projectId source target)).UniqueActive) :
    ∃ m', m.mergeSubjects projectId source target = .ok (m', m.receipt projectId source target) := by
  rw [Memory.mergeSubjects, if_neg (by simp [hs, ht, hst])]
  simp only [flush_of_unique h]
  exact ⟨_, rfl⟩

theorem run_mergeSubjects (env : Env) {projectId source target : String}
    {receipt : SubjectMergeReceipt}
    (h : m.mergeSubjects projectId source target = .ok (m', receipt)) :
    Request.run env m (.mergeSubjects projectId source target) = m' := by
  rw [Request.run, Request.exec, h]
  rfl

/-- What a capture does: the event is stored under its subject. -/
theorem Memory.capture_eq_ok {event : Event} {subjectAlias : Option (String × String)}
    (h : m.capture event subjectAlias = .ok m') :
    ∃ subjectId aliases,
      captureSubject m.subjectAliases event.scope subjectAlias = .ok (subjectId, aliases) ∧
      subjectId ≠ "" ∧
      m' = { m with
        ledger := { m.ledger with
          events := m.ledger.events.insert { event with scope.subjectId := subjectId } }
        subjectAliases := aliases } := by
  obtain ⟨⟨subjectId, aliases⟩, hresolve, h⟩ := bind_eq_ok.mp h
  dsimp only at h
  split at h
  · cases h
  · next hne =>
    cases h
    exact ⟨subjectId, aliases, hresolve, hne, rfl⟩

/-- A request that is not a merge does to the ledger what an operation does, or nothing. -/
theorem Request.exec_ledger {request : Request} (h : request.exec env m = .ok m')
    (hmerge : ∀ projectId source target, request ≠ .mergeSubjects projectId source target) :
    m'.ledger = m.ledger ∨ ∃ op : Op, op.exec env m.ledger = .ok m'.ledger := by
  cases request with
  | capture event subjectAlias =>
    obtain ⟨subjectId, aliases, -, -, rfl⟩ := Memory.capture_eq_ok h
    exact .inr ⟨.capture _, rfl⟩
  | consolidate now extract eventIds only =>
    obtain ⟨⟨ledger, result⟩, hjob, h⟩ := bind_eq_ok.mp h
    cases h
    refine .inr ⟨.consolidate now extract eventIds only, ?_⟩
    rw [Op.exec, mapError_eq_ok.mp hjob]
    rfl
  | resolveConflict now projectId id keep =>
    obtain ⟨ledger, hledger, h⟩ := bind_eq_ok.mp h
    cases h
    exact .inr ⟨.resolve now projectId id keep, mapError_eq_ok.mp hledger⟩
  | forgetFact now projectId id mode =>
    obtain ⟨ledger, hledger, h⟩ := bind_eq_ok.mp h
    cases h
    exact .inr ⟨.forgetFact now projectId id mode, mapError_eq_ok.mp hledger⟩
  | forgetSubject now scope mode =>
    refine .inr ⟨.forgetSubject now scope mode, ?_⟩
    cases mode with
    | disable =>
      obtain ⟨ledger, hledger, h⟩ := bind_eq_ok.mp h
      cases h
      exact mapError_eq_ok.mp hledger
    | delete =>
      cases h
      rfl
  | feedback now projectId target rating =>
    obtain ⟨ledger, hledger, h⟩ := bind_eq_ok.mp h
    cases h
    cases target with
    | trace id =>
      cases mapError_eq_ok.mp hledger
      exact .inl rfl
    | fact id => exact .inr ⟨.feedback now projectId id rating, mapError_eq_ok.mp hledger⟩
  | context trace =>
    cases h
    exact .inr ⟨.serve trace, rfl⟩
  | resolveAlias projectId aliasKind aliasValue canonicalSubjectId =>
    obtain ⟨⟨row, created, aliases⟩, -, h⟩ := bind_eq_ok.mp h
    cases h
    exact .inl rfl
  | mergeSubjects projectId source target => exact absurd rfl (hmerge _ _ _)

/-- Every request leaves a ledger that meets the partial unique index. -/
theorem Request.exec_unique {request : Request} (hu : m.ledger.UniqueActive)
    (h : request.exec env m = .ok m') : m'.ledger.UniqueActive := by
  by_cases hmerge : ∃ projectId source target, request = .mergeSubjects projectId source target
  · obtain ⟨projectId, source, target, rfl⟩ := hmerge
    obtain ⟨⟨m', receipt⟩, hm, rfl⟩ := map_eq_ok.mp h
    obtain ⟨-, hunique, -, rfl⟩ := Memory.mergeSubjects_eq_ok hm
    exact hunique
  · rcases Request.exec_ledger h fun p s t hr ↦ hmerge ⟨p, s, t, hr⟩ with heq | ⟨op, hop⟩
    · rwa [heq]
    · exact Op.exec_unique hu hop

theorem Request.run_unique (env : Env) (request : Request) (hu : m.ledger.UniqueActive) :
    (request.run env m).ledger.UniqueActive := by
  rw [Request.run]
  split
  · next h => exact Request.exec_unique hu h
  · exact hu

theorem Memory.Reachable.unique (h : m.Reachable env) : m.ledger.UniqueActive := by
  obtain ⟨requests, rfl⟩ := h
  exact runRequests_invariant (I := fun m ↦ m.ledger.UniqueActive)
    (fun _ _ _ _ hu h ↦ Request.exec_unique hu h) fun _ hf ↦ absurd hf List.not_mem_nil

end

/-! ## Requests that only add rows -/

/-- The subject an alias resolves to. -/
def SubjectAlias.resolves (a : SubjectAlias) : Scope := ⟨a.projectId, a.canonicalSubjectId⟩

namespace Request

/-- The request neither merges nor erases a subject. -/
def Plain : Request → Prop
  | .mergeSubjects _ _ _ | .forgetSubject _ _ .delete => False
  | _ => True

/-- The request erases no subject. -/
def KeepsSubjects : Request → Prop
  | .forgetSubject _ _ .delete => False
  | _ => True

/-- The request names the subject as one to store rows under. -/
def Addresses (s : Scope) : Request → Prop
  | .capture event none => event.scope = s
  | .capture event (some (kind, value)) =>
    ⟨event.scope.projectId, selfRegistration kind value⟩ = s
  | .context trace => trace.scope = s
  | .resolveAlias projectId aliasKind aliasValue canonicalSubjectId =>
    ⟨projectId, (canonicalSubjectId.filter (· ≠ "")).getD (selfRegistration aliasKind aliasValue)⟩ = s
  | .mergeSubjects projectId _ target => ⟨projectId, target⟩ = s
  | _ => False

instance (request : Request) (s : Scope) : Decidable (request.Addresses s) :=
  match request with
  | .capture event none => inferInstanceAs (Decidable (event.scope = s))
  | .capture event (some (kind, value)) =>
    inferInstanceAs (Decidable ((⟨event.scope.projectId, selfRegistration kind value⟩ : Scope) = s))
  | .context trace => inferInstanceAs (Decidable (trace.scope = s))
  | .resolveAlias projectId aliasKind aliasValue canonicalSubjectId =>
    inferInstanceAs (Decidable ((⟨projectId, (canonicalSubjectId.filter (· ≠ "")).getD
      (selfRegistration aliasKind aliasValue)⟩ : Scope) = s))
  | .mergeSubjects projectId _ target => inferInstanceAs (Decidable ((⟨projectId, target⟩ : Scope) = s))
  | .consolidate _ _ _ _ | .resolveConflict _ _ _ _ | .forgetFact _ _ _ _ | .forgetSubject _ _ _
  | .feedback _ _ _ _ => inferInstanceAs (Decidable False)

end Request

namespace Memory

/-- The subject has events, or an alias. -/
def Knows (m : Memory) (s : Scope) : Prop :=
  (∃ e ∈ m.ledger.events, e.scope = s) ∨ ∃ a ∈ m.subjectAliases, a.resolves = s

/-- Rows are only added, and those that carry a subject are of one of the subjects `new`. -/
structure Extends (new : Scope → Prop) (m m' : Memory) : Prop where
  events : Framed new m.ledger.events.rows m'.ledger.events.rows
  facts : Framed new m.ledger.facts.rows m'.ledger.facts.rows
  conflictSets : Framed new m.ledger.conflictSets.rows m'.ledger.conflictSets.rows
  contextTraces : ∀ t ∈ m'.ledger.contextTraces, t ∈ m.ledger.contextTraces ∨ new t.scope
  episodeChunks : ∀ c ∈ m'.episodeChunks, c ∈ m.episodeChunks ∨
    ∃ e ∈ m.ledger.events, e.id = c.id.event ∧ e.scope = c.scope
  subjectAliases : m'.subjectAliases = m.subjectAliases ∨ ∃ a, m.subjectAliases.Fresh a ∧
    new a.resolves ∧ m'.subjectAliases = m.subjectAliases.insert a
  feedback : ∀ row ∈ m'.feedback, row ∈ m.feedback ∨ ∀ id ∈ row.factId,
    ∃ f ∈ m.ledger.facts, f.id = id ∧ f.scope.projectId = row.projectId
  mergeReceipts : m'.mergeReceipts = m.mergeReceipts

end Memory

section

variable {env : Env} {m m' : Memory} {aliases aliases' : Table SubjectAlias}
  {projectId aliasKind aliasValue : String} {new : Scope → Prop}

/-- A registration finds the alias, or adds it. -/
theorem resolveAlias_eq_ok {canonicalSubjectId : Option String} {row : Option SubjectAlias}
    {created : Bool} (h : resolveAlias aliases projectId aliasKind aliasValue canonicalSubjectId true =
      .ok (row, created, aliases')) :
    (∃ a ∈ aliases, a.projectId = projectId ∧ row = some a ∧ aliases' = aliases) ∨
    ∃ a : SubjectAlias, aliases.Fresh a ∧ a.projectId = projectId ∧
      a.canonicalSubjectId =
        (canonicalSubjectId.filter (· ≠ "")).getD (selfRegistration aliasKind aliasValue) ∧
      row = some a ∧ aliases' = aliases.insert a := by
  rw [resolveAlias] at h
  split at h
  · next a ha =>
    obtain ⟨hmem, hkey⟩ := Table.get?_eq_some_iff.mp ha
    split at h
    · cases h
    · cases h
      exact .inl ⟨a, hmem, (Prod.mk.inj hkey).1, rfl, rfl⟩
  · next hnone =>
    rw [if_pos rfl] at h
    dsimp only at h
    split at h
    · cases h
    · cases h
      refine .inr ⟨_, fun b hb ↦ ?_, rfl, rfl, rfl, rfl⟩
      exact Table.get?_eq_none_iff.mp hnone b hb

/-- A captured event is stored under the subject it names, under one an alias resolves to, or under
one that registers itself. -/
theorem captureSubject_eq_ok {scope : Scope} {subjectAlias : Option (String × String)}
    {subjectId : String}
    (h : captureSubject aliases scope subjectAlias = .ok (subjectId, aliases')) :
    (aliases' = aliases ∧ ((subjectAlias = none ∧ scope.subjectId = subjectId) ∨
      ∃ a ∈ aliases, a.resolves = ⟨scope.projectId, subjectId⟩)) ∨
    ∃ kind value a, subjectAlias = some (kind, value) ∧ selfRegistration kind value = subjectId ∧
      aliases.Fresh a ∧ a.resolves = ⟨scope.projectId, subjectId⟩ ∧
      aliases' = aliases.insert a := by
  cases subjectAlias with
  | none =>
    cases h
    exact .inl ⟨rfl, .inl ⟨rfl, rfl⟩⟩
  | some subjectAlias =>
    obtain ⟨⟨row, created, aliases'⟩, hresolve, h⟩ := bind_eq_ok.mp h
    cases h
    rcases resolveAlias_eq_ok hresolve with ⟨a, ha, hp, rfl, rfl⟩ | ⟨a, ha, hp, hc, rfl, rfl⟩
    · exact .inl ⟨rfl, .inr ⟨a, ha, congrArg (Scope.mk · _) hp⟩⟩
    · refine .inr ⟨subjectAlias.1, subjectAlias.2, a, rfl, hc.symm, ha, ?_, rfl⟩
      exact congrArg (Scope.mk · _) hp

theorem mem_writeEpisodeChunks {chunks : Table EpisodeChunk} {events : List Event}
    {c : EpisodeChunk} (h : c ∈ writeEpisodeChunks env chunks events) :
    c ∈ chunks ∨ ∃ e ∈ events, e.id = c.id.event ∧ e.scope = c.scope := by
  refine (Table.mem_of_mem_foldl_insert h).imp_right fun hc ↦ ?_
  obtain ⟨e, he, hc⟩ := List.mem_flatMap.mp hc
  obtain ⟨-, -, rfl⟩ := List.mem_map.mp hc
  exact ⟨e, (List.mem_filter.mp he).1, rfl, rfl⟩

/-- A change to the ledger alone. -/
theorem Memory.Extends.of_framed {ledger : Db} (h : m.ledger.Framed new ledger) :
    m.Extends new { m with ledger := ledger } :=
  ⟨h.events.mono fun _ ↦ False.elim, h.facts, h.conflictSets,
    fun _ ht ↦ .inl (h.contextTraces ▸ ht), fun _ hc ↦ .inl hc, .inl rfl,
    fun _ hrow ↦ .inl hrow, rfl⟩

/-- A change to the aliases alone. -/
theorem Memory.Extends.of_aliases (h : aliases = m.subjectAliases ∨
    ∃ a, m.subjectAliases.Fresh a ∧ new a.resolves ∧ aliases = m.subjectAliases.insert a) :
    m.Extends new { m with subjectAliases := aliases } :=
  ⟨.refl _, .refl _, .refl _, fun _ ht ↦ .inl ht, fun _ hc ↦ .inl hc, h, fun _ hrow ↦ .inl hrow,
    rfl⟩

/-- A capture stores one event, and an alias if it has to register the subject. -/
theorem Memory.capture_extends {event : Event} {subjectAlias : Option (String × String)}
    (h : m.capture event subjectAlias = .ok m') :
    m.Extends (fun s ↦ (Request.capture event subjectAlias).Addresses s ∨ m.Knows s) m' := by
  obtain ⟨subjectId, aliases, hsubject, -, rfl⟩ := Memory.capture_eq_ok h
  refine ⟨.insert ?_ _, .refl _, .refl _, fun _ ht ↦ .inl ht, fun _ hc ↦ .inl hc, ?_,
    fun _ hrow ↦ .inl hrow, rfl⟩
  · show _ ∨ _
    rcases captureSubject_eq_ok hsubject with ⟨-, ⟨rfl, hid⟩ | ⟨a, ha, hres⟩⟩ |
      ⟨kind, value, a, rfl, hid, -, -, -⟩
    · exact .inl (congrArg (Scope.mk _ ·) hid)
    · exact .inr (.inr ⟨a, ha, hres⟩)
    · exact .inl (congrArg (Scope.mk _ ·) hid)
  · rcases captureSubject_eq_ok hsubject with ⟨rfl, -⟩ | ⟨kind, value, a, rfl, hid, ha, hres, rfl⟩
    · exact .inl rfl
    · refine .inr ⟨a, ha, .inl ?_, rfl⟩
      exact (congrArg (Scope.mk _ ·) hid).trans hres.symm

/-- A job writes rows of the subjects of its events. -/
theorem Memory.consolidate_extends {extract : Extractor} {eventIds : List EventId}
    {only : Option (List EventId)} (hu : m.ledger.UniqueActive)
    (h : m.consolidate env extract eventIds only = .ok m')
    (hnew : ∀ s, (∃ e ∈ m.ledger.events, e.scope = s) → new s) : m.Extends new m' := by
  obtain ⟨⟨ledger, result⟩, hjob, h⟩ := bind_eq_ok.mp h
  cases h
  have hframed := processJob_framed hu (mapError_eq_ok.mp hjob)
  obtain ⟨hevents, hfacts, hsets, htraces, -, haliases, hfeedback, hreceipts⟩ :=
    Memory.Extends.of_framed (hframed.mono hnew)
  refine ⟨hevents, hfacts, hsets, htraces, fun c hc ↦ ?_, haliases, hfeedback, hreceipts⟩
  refine (mem_writeEpisodeChunks hc).imp_right ?_
  rintro ⟨e, he, hid⟩
  exact ⟨e, mem_jobEvents he, hid⟩

/-- Feedback may change the status of the fact it is about, and is stored. -/
theorem Memory.submitFeedback_extends {now : Timestamp} {target : FeedbackTarget} {rating : Rating}
    (h : m.submitFeedback now projectId target rating = .ok m') : m.Extends new m' := by
  obtain ⟨ledger, hledger, h⟩ := bind_eq_ok.mp h
  cases h
  have hledger := mapError_eq_ok.mp hledger
  have hframed : m.ledger.Frozen ledger := by
    cases target with
    | trace id =>
      cases hledger
      exact .refl m.ledger
    | fact id => exact submitFeedback_frozen hledger
  have hext : m.Extends new { m with ledger := ledger } := .of_framed hframed.framed
  obtain ⟨hevents, hfacts, hsets, htraces, hchunks, haliases, -, hreceipts⟩ := hext
  refine ⟨hevents, hfacts, hsets, htraces, hchunks, haliases, fun row hrow ↦ ?_, hreceipts⟩
  rcases List.mem_append.mp hrow with hrow | hrow
  · exact .inl hrow
  · obtain rfl := List.mem_singleton.mp hrow
    refine .inr fun id hid ↦ ?_
    cases target with
    | trace id => cases hid
    | fact factId =>
      obtain rfl : factId = id := Option.some.inj hid
      obtain ⟨f, hf, -⟩ := bind_eq_ok.mp hledger
      obtain ⟨hf, hproject⟩ := getProjectFact_eq_ok hf
      exact ⟨f, Db.mem_of_fact? hf, Db.id_of_fact? hf, hproject⟩

/-- **Extension rule.**  A request that neither merges nor erases a subject adds rows of subjects it
names or the memory knows. -/
theorem Request.exec_extends {request : Request} (hplain : request.Plain)
    (hu : m.ledger.UniqueActive) (h : request.exec env m = .ok m') :
    m.Extends (fun s ↦ request.Addresses s ∨ m.Knows s) m' := by
  cases request with
  | capture event subjectAlias => exact Memory.capture_extends h
  | consolidate now extract eventIds only =>
    exact Memory.consolidate_extends hu h fun s hs ↦ .inr (.inl hs)
  | resolveConflict now projectId id keep =>
    obtain ⟨ledger, hledger, h⟩ := bind_eq_ok.mp h
    cases h
    exact .of_framed (resolveConflict_frozen (mapError_eq_ok.mp hledger)).framed
  | forgetFact now projectId id mode =>
    obtain ⟨ledger, hledger, h⟩ := bind_eq_ok.mp h
    cases h
    exact .of_framed (forgetFact_frozen (mapError_eq_ok.mp hledger)).framed
  | forgetSubject now scope mode =>
    cases mode with
    | disable =>
      obtain ⟨ledger, hledger, h⟩ := bind_eq_ok.mp h
      cases h
      exact .of_framed (disableSubject_frozen (mapError_eq_ok.mp hledger)).framed
    | delete => exact hplain.elim
  | feedback now projectId target rating => exact Memory.submitFeedback_extends h
  | context trace =>
    cases h
    refine ⟨.refl _, .refl _, .refl _, fun t ht ↦ ?_, fun _ hc ↦ .inl hc, .inl rfl,
      fun _ hrow ↦ .inl hrow, rfl⟩
    rcases List.mem_append.mp ht with ht | ht
    · exact .inl ht
    · obtain rfl := List.mem_singleton.mp ht
      exact .inr (.inl rfl)
  | resolveAlias projectId aliasKind aliasValue canonicalSubjectId =>
    obtain ⟨⟨row, created, aliases⟩, hresolve, h⟩ := bind_eq_ok.mp h
    cases h
    refine .of_aliases ?_
    rcases resolveAlias_eq_ok hresolve with ⟨-, -, -, -, rfl⟩ | ⟨a, ha, hp, hc, -, rfl⟩
    · exact .inl rfl
    · refine .inr ⟨a, ha, .inl ?_, rfl⟩
      show (⟨_, _⟩ : Scope) = ⟨_, _⟩
      rw [hp, hc]
  | mergeSubjects projectId source target => exact hplain.elim

end

end Haki
