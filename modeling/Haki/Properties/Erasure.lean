import Haki.Consolidator.Learned
import Haki.Properties.Merge
import Haki.Properties.Routing

/-!
# What an erasure leaves after merges

`forget(T, delete)` erases the rows of one subject, and a merge makes rows of
another subject rows of `T`.  After a merge the source is `Vacant`, up to the
synonyms it has learned, which a merge does not move, and stays so until a
request stores rows under its name again.  An observation on a packet is not
erased either.  In a run that stays clear of the three, an erasure leaves
nothing of `T` and of the names that were merged into it (`erasure_complete`).
-/

namespace Haki

open Data Control Scoped

namespace Memory

variable {env : Env} {m m' : Memory} {s T : Scope}

/-! ## Vacant subjects -/

/-- Nothing belongs to the subject, and no alias resolves to it. -/
structure Vacant (m : Memory) (s : Scope) : Prop where
  events : ∀ e ∈ m.ledger.events, e.scope ≠ s
  episodeChunks : ∀ c ∈ m.episodeChunks, c.scope ≠ s
  facts : ∀ f ∈ m.ledger.facts, f.scope ≠ s
  conflictSets : ∀ c ∈ m.ledger.conflictSets, c.scope ≠ s
  contextTraces : ∀ t ∈ m.ledger.contextTraces, t.scope ≠ s
  subjectAliases : ∀ a ∈ m.subjectAliases, a.resolves ≠ s

theorem Vacant.not_knows (h : m.Vacant s) : ¬ m.Knows s := by
  rintro (⟨e, he, hs⟩ | ⟨a, ha, hs⟩)
  · exact h.events e he hs
  · exact h.subjectAliases a ha hs

/-- A merge leaves its source vacant. -/
theorem mergeSubjects_vacant {projectId source target : String} {receipt : SubjectMergeReceipt}
    (h : m.mergeSubjects projectId source target = .ok (m', receipt)) :
    m'.Vacant ⟨projectId, source⟩ := by
  have hmoved := mergeSubjects_moves h
  constructor
  case events => exact hmoved.events.vacated
  case episodeChunks => exact hmoved.episodeChunks.vacated
  case facts => exact hmoved.facts.vacated
  case conflictSets => exact hmoved.conflictSets.vacated
  case contextTraces => exact hmoved.contextTraces.vacated
  case subjectAliases =>
    intro a ha hres
    obtain ⟨hproject, hcanonical⟩ := Scope.mk.inj hres
    exact hmoved.aliases a ha ⟨hproject, hcanonical⟩

/-- New rows of other subjects. -/
theorem Vacant.extends {new : Scope → Prop} (h : m.Vacant s) (hext : m.Extends new m')
    (hnew : ¬ new s) : m'.Vacant s := by
  have hrows {α κ : Type} [Keyed α κ] [Scoped α] {rows rows' : List α}
      (hvacant : ∀ a ∈ rows, scope a ≠ s) (hframed : Framed new rows rows') :
      ∀ a ∈ rows', scope a ≠ s := by
    rintro a ha rfl
    rcases hframed.born a ha with hborn | ⟨b, hb, -, hs⟩
    · exact hnew hborn
    · exact hvacant b hb hs
  constructor
  case events => exact hrows h.events hext.events
  case facts => exact hrows h.facts hext.facts
  case conflictSets => exact hrows h.conflictSets hext.conflictSets
  case episodeChunks =>
    rintro c hc rfl
    rcases hext.episodeChunks c hc with hc | ⟨e, he, -, hs⟩
    · exact h.episodeChunks c hc rfl
    · exact h.events e he hs
  case contextTraces =>
    rintro t ht rfl
    exact (hext.contextTraces t ht).elim (fun ht ↦ h.contextTraces t ht rfl) hnew
  case subjectAliases =>
    rintro a ha rfl
    rcases hext.subjectAliases with heq | ⟨b, -, hb, heq⟩
    · exact h.subjectAliases a (heq ▸ ha) rfl
    · rcases Table.mem_of_mem_insert (heq ▸ ha) with ha | rfl
      · exact h.subjectAliases a ha rfl
      · exact hnew hb

/-- A merge into another subject. -/
theorem Vacant.merge {projectId source target : String} {receipt : SubjectMergeReceipt}
    (h : m.Vacant s) (hm : m.mergeSubjects projectId source target = .ok (m', receipt))
    (htarget : ⟨projectId, target⟩ ≠ s) : m'.Vacant s := by
  obtain ⟨-, -, -, rfl⟩ := mergeSubjects_eq_ok hm
  have hrename {s' : Scope} (hs' : s' ≠ s) : Scope.merge projectId source target s' ≠ s := by
    rw [Scope.merge, rename]
    split
    · exact htarget
    · exact hs'
  have hrows {α κ : Type} [Keyed α κ] [Scoped α] [DecidableEq κ] {t : Table α}
      (hkey : ∀ (g : Scope → Scope) (a : α), key (rescope g a) = key a)
      (hvacant : ∀ a ∈ t, scope a ≠ s) :
      ∀ a ∈ t.modify (rescope (Scope.merge projectId source target)), scope a ≠ s := by
    intro a ha
    obtain ⟨b, hb, rfl⟩ := (Table.mem_modify (hkey _)).mp ha
    rw [rescope, scope_withScope]
    exact hrename (hvacant b hb)
  constructor
  case events => exact hrows (fun _ _ ↦ rfl) h.events
  case facts => exact hrows (fun _ _ ↦ rfl) h.facts
  case conflictSets => exact hrows (fun _ _ ↦ rfl) h.conflictSets
  case episodeChunks => exact hrows (fun _ _ ↦ rfl) h.episodeChunks
  case contextTraces =>
    intro t' ht'
    obtain ⟨t, ht, rfl⟩ := List.mem_map.mp ht'
    exact hrename (h.contextTraces t ht)
  case subjectAliases =>
    intro a' ha'
    rcases Table.mem_of_mem_insert ha' with ha' | rfl
    · obtain ⟨a, ha, rfl⟩ := (Table.mem_modify (key_repoint projectId source target)).mp ha'
      rw [SubjectAlias.repoint]
      split
      · next hs => exact fun hres ↦ htarget ((congrArg (Scope.mk · _) hs.1).symm.trans hres)
      · exact h.subjectAliases a ha
    · exact htarget

/-- An erasure. -/
theorem Vacant.deleteSubject (h : m.Vacant s) (T : Scope) : (m.deleteSubject T).Vacant s where
  events e he := h.events e (Table.mem_filter.mp he).1
  episodeChunks c hc := h.episodeChunks c (Table.mem_filter.mp hc).1
  facts f hf := h.facts f (Table.mem_filter.mp hf).1
  conflictSets c hc := h.conflictSets c (Table.mem_filter.mp hc).1
  contextTraces t ht := h.contextTraces t (List.mem_filter.mp ht).1
  subjectAliases a ha := h.subjectAliases a (Table.mem_filter.mp ha).1

/-- A vacant subject stays vacant until a request names it. -/
theorem exec_vacant {request : Request} (hu : m.ledger.UniqueActive) (h : m.Vacant s)
    (hs : ¬ request.Addresses s) (he : request.exec env m = .ok m') : m'.Vacant s := by
  by_cases hplain : request.Plain
  · exact h.extends (Request.exec_extends hplain hu he) (not_or.mpr ⟨hs, h.not_knows⟩)
  · cases request with
    | mergeSubjects projectId source target =>
      obtain ⟨⟨m', receipt⟩, hm, rfl⟩ := map_eq_ok.mp he
      exact h.merge hm hs
    | forgetSubject now scope mode =>
      cases mode with
      | disable => exact absurd trivial hplain
      | delete =>
        cases he
        exact h.deleteSubject scope
    | _ => exact absurd trivial hplain

/-! ## What hangs on events and facts -/

/-- Every chunk is of the subject of its event, and every observation on a fact is of the project of
its fact. -/
structure Linked (m : Memory) : Prop where
  episodeChunks : ∀ c ∈ m.episodeChunks, ∃ e ∈ m.ledger.events, e.id = c.id.event ∧ e.scope = c.scope
  feedback : ∀ row ∈ m.feedback, ∀ id ∈ row.factId,
    ∃ f ∈ m.ledger.facts, f.id = id ∧ f.scope.projectId = row.projectId

theorem Linked.extends {new : Scope → Prop} (h : m.Linked) (hext : m.Extends new m') :
    m'.Linked := by
  constructor
  case episodeChunks =>
    intro c hc
    obtain ⟨e, he, hid, hs⟩ := (hext.episodeChunks c hc).elim (h.episodeChunks c) id
    obtain ⟨e', he', hid', hs'⟩ := hext.events.kept e he
    exact ⟨e', he', hid'.trans hid, hs'.trans hs⟩
  case feedback =>
    intro row hrow id hid
    obtain ⟨f, hf, rfl, hp⟩ := (hext.feedback row hrow).elim (h.feedback row · id hid) (· id hid)
    obtain ⟨f', hf', hid', hs'⟩ := hext.facts.kept f hf
    exact ⟨f', hf', hid', (congrArg Scope.projectId hs').trans hp⟩

theorem Linked.merge {projectId source target : String} {receipt : SubjectMergeReceipt}
    (h : m.Linked) (hm : m.mergeSubjects projectId source target = .ok (m', receipt)) :
    m'.Linked := by
  obtain ⟨-, -, -, rfl⟩ := mergeSubjects_eq_ok hm
  constructor
  case episodeChunks =>
    intro c' hc'
    obtain ⟨c, hc, rfl⟩ := (Table.mem_modify (f := rescope _) fun _ ↦ rfl).mp hc'
    obtain ⟨e, he, hid, hs⟩ := h.episodeChunks c hc
    refine ⟨_, (Table.mem_modify (f := rescope _) fun _ ↦ rfl).mpr ⟨e, he, rfl⟩, hid, ?_⟩
    exact congrArg (Scope.merge projectId source target) hs
  case feedback =>
    intro row hrow id hid
    obtain ⟨f, hf, hf', hp⟩ := h.feedback row hrow id hid
    refine ⟨_, (Table.mem_modify (f := rescope _) fun _ ↦ rfl).mpr ⟨f, hf, rfl⟩, hf', ?_⟩
    show (rename _ _ f.scope).projectId = _
    rw [rename]
    split
    · next hs => exact (congrArg Scope.projectId hs).symm.trans hp
    · exact hp

theorem Linked.deleteSubject (h : m.Linked) (T : Scope) : (m.deleteSubject T).Linked := by
  constructor
  case episodeChunks =>
    intro c hc
    obtain ⟨hc, hkeep⟩ := Table.mem_filter.mp hc
    obtain ⟨e, he, hid, hs⟩ := h.episodeChunks c hc
    refine ⟨e, Table.mem_filter.mpr ⟨he, ?_⟩, hid, hs⟩
    simp only [decide_eq_true_eq] at hkeep ⊢
    exact fun hT ↦ hkeep ⟨e, he, hid, hT⟩
  case feedback =>
    intro row' hrow' id hid
    obtain ⟨row, hrow, rfl⟩ := List.mem_map.mp hrow'
    obtain ⟨hrow, -⟩ := List.mem_filter.mp hrow
    split at hid
    · cases hid
    · next hon =>
      rw [if_neg hon]
      obtain ⟨f, hf, hfid, hp⟩ := h.feedback row hrow id hid
      refine ⟨f, Table.mem_filter.mpr ⟨hf, ?_⟩, hfid, hp⟩
      exact decide_eq_true fun hT ↦ hon ⟨id, hid, f, hf, hfid, hT⟩

theorem Reachable.linked (h : m.Reachable env) : m.Linked := by
  obtain ⟨requests, rfl⟩ := h
  refine (runRequests_invariant (I := fun m ↦ m.ledger.UniqueActive ∧ m.Linked)
    (fun request _ m m' hI he ↦ ⟨Request.exec_unique hI.1 he, ?_⟩) ⟨?_, ?_⟩).2
  · by_cases hplain : request.Plain
    · exact hI.2.extends (Request.exec_extends hplain hI.1 he)
    · cases request with
      | mergeSubjects projectId source target =>
        obtain ⟨⟨m', receipt⟩, hm, rfl⟩ := map_eq_ok.mp he
        exact hI.2.merge hm
      | forgetSubject now scope mode =>
        cases mode with
        | disable => exact absurd trivial hplain
        | delete =>
          cases he
          exact hI.2.deleteSubject scope
      | _ => exact absurd trivial hplain
  · exact fun _ hf ↦ absurd hf List.not_mem_nil
  · exact ⟨fun _ hc ↦ absurd hc List.not_mem_nil, fun _ hr ↦ absurd hr List.not_mem_nil⟩

/-! ## What is learned and observed -/

/-- The synonyms a job learns are those of subjects that have events. -/
theorem processJob_learned {extract : Extractor} {db : Db} {eventIds : List EventId}
    {only : Option (List EventId)} {state : Db × JobResult} (hu : db.UniqueActive)
    (h : processJob env extract db eventIds only = .ok state) :
    ∀ a ∈ state.1.predicateAliases, a ∈ db.predicateAliases ∨ ∃ e ∈ db.events, e.scope = a.scope := by
  have hevents : JobMeets env extract (fun event _ _ ↦ event ∈ db.events) db eventIds only := by
    refine foldMeets_of_forall_meets (ι := Unit) (C := fun _ _ event ↦ event ∈ db.events)
      (fun s event hevent raws _ ↦ foldMeets_of_forall (fun _ _ _ ↦ hevent ()) _ _) fun _ ↦ ?_
    exact foldMeets_of_forall_mem (fun event he ↦ mem_jobEvents he) _
  refine (processJob_invariant (I := fun db' ↦ db'.UniqueActive ∧ ∀ a ∈ db'.predicateAliases,
    a ∈ db.predicateAliases ∨ ∃ e ∈ db.events, e.scope = a.scope) (fun _ _ hI ↦ hI)
    (fun event db₁ c result db₂ result' hI hevent h ↦ ?_) ⟨hu, fun _ ha ↦ .inl ha⟩ hevents h).2
  refine ⟨applyCandidate_unique hI.1 h, fun a ha ↦ ?_⟩
  rcases applyCandidate_learned hI.1 h a ha with ha | ha
  · exact hI.2 a ha
  · exact .inr ⟨event, hevent, ha.symm⟩

/-- An operation leaves the synonyms, forgets some, or learns those of subjects with events. -/
theorem exec_learned {op : Op} {db db' : Db} (hu : db.UniqueActive)
    (h : op.exec env db = .ok db') :
    ∀ a ∈ db'.predicateAliases, a ∈ db.predicateAliases ∨ ∃ e ∈ db.events, e.scope = a.scope := by
  by_cases hres : op.IsNotResolution
  · by_cases hop : op.IsConsolidation
    · cases op with
      | consolidate now extract eventIds only =>
        obtain ⟨state, hjob, rfl⟩ := consolidate_eq_ok h
        exact processJob_learned hu hjob
      | capture | serve =>
        cases h
        exact fun _ ha ↦ .inl ha
      | _ => exact absurd hop id
    · refine Op.exec_withdraws (I := fun db' ↦ ∀ a ∈ db'.predicateAliases,
        a ∈ db.predicateAliases ∨ ∃ e ∈ db.events, e.scope = a.scope) (fun _ _ _ _ hI ↦ hI)
        (fun db₁ scope hI a ha ↦ hI a (Table.mem_filter.mp ha).1) hop hres (fun _ ha ↦ .inl ha) h
  · cases op with
    | resolve now projectId id keep =>
      obtain ⟨conflict, db₁, -, -, -, hwalk, rfl⟩ := resolveConflict_eq_ok h
      show ∀ a ∈ db₁.predicateAliases, _
      refine foldlM_preserves (I := fun db₁ : Db ↦ ∀ a ∈ db₁.predicateAliases,
        a ∈ db.predicateAliases ∨ ∃ e ∈ db.events, e.scope = a.scope) (fun db₁ id db₂ hI h ↦ ?_)
        (fun _ ha ↦ .inl ha) hwalk
      rcases resolveMember_eq_ok h with rfl | ⟨_, -, rfl⟩
      · exact hI
      · exact hI
    | _ => exact absurd trivial hres

/-- The same of a request. -/
theorem exec_predicateAliases {request : Request} (hu : m.ledger.UniqueActive)
    (h : request.exec env m = .ok m') : ∀ a ∈ m'.ledger.predicateAliases,
      a ∈ m.ledger.predicateAliases ∨ ∃ e ∈ m.ledger.events, e.scope = a.scope := by
  by_cases hmerge : ∃ projectId source target, request = .mergeSubjects projectId source target
  · obtain ⟨projectId, source, target, rfl⟩ := hmerge
    obtain ⟨⟨m', receipt⟩, hm, rfl⟩ := map_eq_ok.mp h
    obtain ⟨-, -, -, rfl⟩ := mergeSubjects_eq_ok hm
    exact fun _ ha ↦ .inl ha
  · rcases Request.exec_ledger h fun p s t hr ↦ hmerge ⟨p, s, t, hr⟩ with heq | ⟨op, hop⟩
    · rw [heq]
      exact fun _ ha ↦ .inl ha
    · exact exec_learned hu hop

/-- Observations stay on the packets they were made on, and only feedback on a packet makes one. -/
theorem exec_feedback {request : Request} (h : request.exec env m = .ok m')
    (hrequest : ∀ now projectId id rating, request ≠ .feedback now projectId (.trace id) rating)
    (hrows : ∀ row ∈ m.feedback, row.traceId = none) : ∀ row ∈ m'.feedback, row.traceId = none := by
  cases request with
  | capture event subjectAlias =>
    obtain ⟨_, _, -, -, rfl⟩ := Memory.capture_eq_ok h
    exact hrows
  | feedback now projectId target rating =>
    obtain ⟨ledger, -, h⟩ := bind_eq_ok.mp h
    cases h
    cases target with
    | trace id => exact absurd rfl (hrequest now projectId id rating)
    | fact id =>
      intro row hrow
      rcases List.mem_append.mp hrow with hrow | hrow
      · exact hrows row hrow
      · obtain rfl := List.mem_singleton.mp hrow
        rfl
  | forgetSubject now scope mode =>
    cases mode with
    | disable =>
      obtain ⟨ledger, -, h⟩ := bind_eq_ok.mp h
      cases h
      exact hrows
    | delete =>
      cases h
      intro row' hrow'
      obtain ⟨row, hrow, rfl⟩ := List.mem_map.mp hrow'
      have hnone := hrows row (List.mem_filter.mp hrow).1
      split
      · exact hnone
      · exact hnone
  | mergeSubjects projectId source target =>
    obtain ⟨⟨m', receipt⟩, hm, rfl⟩ := map_eq_ok.mp h
    obtain ⟨-, -, -, rfl⟩ := mergeSubjects_eq_ok hm
    exact hrows
  | context trace =>
    cases h
    exact hrows
  | _ =>
    obtain ⟨_, -, h⟩ := bind_eq_ok.mp h
    cases h
    exact hrows

/-! ## Erasure -/

/-- Nothing at all is the subject's. -/
structure Erased (m : Memory) (T : Scope) : Prop extends m.Vacant T where
  predicateAliases : ∀ a ∈ m.ledger.predicateAliases, a.scope ≠ T

/-- The observation is on a packet of the scope. -/
def OnTraceOf (m : Memory) (scope : Scope) (row : Feedback) : Prop :=
  ∃ id ∈ row.traceId, ∃ t ∈ m.ledger.contextTraces, t.id = id ∧ t.scope = scope

/-- Nothing is left of `T` and of the names that were merged into it: no row and no alias, and no
observation on what were their facts and packets. -/
def LeavesNothing (m m' : Memory) (T : Scope) : Prop :=
  ∀ s, s = T.subjectId ∨ MovedTo (m.merges T.projectId) s T.subjectId →
    m'.Erased ⟨T.projectId, s⟩ ∧ ∀ row ∈ m'.feedback,
      ¬ m.OnFactOf ⟨T.projectId, s⟩ row ∧ ¬ m.OnTraceOf ⟨T.projectId, s⟩ row

/-- What an erasure deletes stays all there is to a merged subject: a merge moves no subject that
has learned a synonym, no observation is made on a packet, and nothing is stored under a name that
was merged away. -/
def StaysErasable (m : Memory) (request : Request) : Prop :=
  (∀ r ∈ m.mergeReceipts, ¬ request.Addresses ⟨r.projectId, r.sourceSubjectId⟩) ∧
    match request with
    | .mergeSubjects projectId source _ =>
      ∀ a ∈ m.ledger.predicateAliases, a.scope ≠ ⟨projectId, source⟩
    | .feedback _ _ (.trace _) _ => False
    | _ => True

instance (m : Memory) (request : Request) : Decidable (m.StaysErasable request) := by
  refine @instDecidableAnd _ _ inferInstance ?_
  cases request with
  | mergeSubjects => exact inferInstanceAs (Decidable (∀ a ∈ m.ledger.predicateAliases, _))
  | feedback now projectId target rating =>
    cases target with
    | trace => exact inferInstanceAs (Decidable False)
    | fact => exact inferInstanceAs (Decidable True)
  | _ => exact inferInstanceAs (Decidable True)

/-- Nothing is under a name that was merged away, and no observation is on a packet. -/
structure Erasable (m : Memory) : Prop where
  unique : m.ledger.UniqueActive
  merged : ∀ r ∈ m.mergeReceipts, m.Erased ⟨r.projectId, r.sourceSubjectId⟩
  feedback : ∀ row ∈ m.feedback, row.traceId = none

/-- A subject of which there is nothing stays so until a request names it. -/
theorem exec_erased {request : Request} (hu : m.ledger.UniqueActive) (h : m.Erased s)
    (hs : ¬ request.Addresses s) (he : request.exec env m = .ok m') : m'.Erased s := by
  refine ⟨exec_vacant hu h.toVacant hs he, fun a ha heq ↦ ?_⟩
  rcases exec_predicateAliases hu he a ha with ha | ⟨e, hevent, hscope⟩
  · exact h.predicateAliases a ha heq
  · exact h.events e hevent (hscope.trans heq)

/-- Only a merge is journaled. -/
theorem exec_mergeReceipts {request : Request} (hu : m.ledger.UniqueActive)
    (h : request.exec env m = .ok m') : m'.mergeReceipts = m.mergeReceipts ∨
      ∃ projectId source target receipt, request = .mergeSubjects projectId source target ∧
        m.mergeSubjects projectId source target = .ok (m', receipt) ∧
        m'.mergeReceipts = m.mergeReceipts ++ [receipt] := by
  by_cases hplain : request.Plain
  · exact .inl (Request.exec_extends hplain hu h).mergeReceipts
  · cases request with
    | mergeSubjects projectId source target =>
      obtain ⟨⟨m', receipt⟩, hm, rfl⟩ := map_eq_ok.mp h
      refine .inr ⟨projectId, source, target, receipt, rfl, hm, ?_⟩
      obtain ⟨-, -, rfl, rfl⟩ := mergeSubjects_eq_ok hm
      rfl
    | forgetSubject now scope mode =>
      cases mode with
      | disable => exact absurd trivial hplain
      | delete =>
        cases h
        exact .inl rfl
    | _ => exact absurd trivial hplain

/-- A request that meets the condition. -/
theorem Erasable.exec {request : Request} (h : m.Erasable) (hr : m.StaysErasable request)
    (he : request.exec env m = .ok m') : m'.Erasable := by
  obtain ⟨haddresses, hr⟩ := hr
  constructor
  case unique => exact Request.exec_unique h.unique he
  case merged =>
    intro r hmem
    rcases exec_mergeReceipts h.unique he with heq | ⟨p, source, target, receipt, rfl, hm, heq⟩
    · rw [heq] at hmem
      exact exec_erased h.unique (h.merged r hmem) (haddresses r hmem) he
    · rw [heq] at hmem
      rcases List.mem_append.mp hmem with hmem | hmem
      · exact exec_erased h.unique (h.merged r hmem) (haddresses r hmem) he
      · obtain rfl := List.mem_singleton.mp hmem
        have hvacant := mergeSubjects_vacant hm
        obtain ⟨-, -, rfl, rfl⟩ := mergeSubjects_eq_ok hm
        exact ⟨hvacant, hr⟩
  case feedback =>
    refine exec_feedback he ?_ h.feedback
    rintro now projectId id rating rfl
    exact hr

theorem deleteSubject_erased (h : m.Linked) (T : Scope) : (m.deleteSubject T).Erased T := by
  constructor
  case predicateAliases => exact fun a ha ↦ of_decide_eq_true (Table.mem_filter.mp ha).2
  constructor
  case events => exact fun e he ↦ of_decide_eq_true (Table.mem_filter.mp he).2
  case facts => exact fun f hf ↦ of_decide_eq_true (Table.mem_filter.mp hf).2
  case conflictSets => exact fun c hc ↦ of_decide_eq_true (Table.mem_filter.mp hc).2
  case contextTraces => exact fun t ht ↦ of_decide_eq_true (List.mem_filter.mp ht).2
  case episodeChunks =>
    intro c hc hs
    obtain ⟨hc, hkeep⟩ := Table.mem_filter.mp hc
    obtain ⟨e, he, hid, hes⟩ := h.episodeChunks c hc
    exact of_decide_eq_true hkeep ⟨e, he, hid, hes.trans hs⟩
  case subjectAliases =>
    intro a ha hres
    obtain ⟨-, hkeep⟩ := Table.mem_filter.mp ha
    obtain ⟨hp, hc⟩ := Scope.mk.inj (hres : (⟨_, _⟩ : Scope) = ⟨T.projectId, T.subjectId⟩)
    exact of_decide_eq_true hkeep ⟨hp, hc⟩

/-- The observations on the facts of the subject are gone, and the others are as they were. -/
theorem deleteSubject_feedback (h : m.Linked) (T : Scope) {row : Feedback}
    (hrow : row ∈ (m.deleteSubject T).feedback) : row ∈ m.feedback ∧ ¬ m.OnFactOf T row := by
  obtain ⟨row₀, hrow₀, heq⟩ := List.mem_map.mp hrow
  obtain ⟨hrow₀, hkeep⟩ := List.mem_filter.mp hrow₀
  have hoff : ¬ m.OnFactOf T row₀ := by
    rintro ⟨id, hid, f, hf, hfid, hs⟩
    obtain ⟨g, hg, hgid, hp⟩ := h.feedback row₀ hrow₀ id hid
    obtain rfl := Db.eq_of_id_eq hf hg (hfid.trans hgid.symm)
    exact of_decide_eq_true hkeep ⟨hp.symm.trans (congrArg Scope.projectId hs),
      id, hid, f, hf, hfid, hs⟩
  rw [if_neg hoff] at heq
  exact heq ▸ ⟨hrow₀, hoff⟩

/-- Every two texts are near. -/
def blurred : Env := { Env.sample with embed := fun _ ↦ [] }

/-- Anna is merged into Ben, and Ben is erased. -/
def eraseBen : List Request :=
  [.mergeSubjects "project" "anna" "ben", .forgetSubject 3 ⟨"project", "ben"⟩ .delete]

/-- Anna is merged into Ben and Ben into Carl, after packets were served and a fact was observed. -/
def mergedTwice : List Request :=
  saysLyon 1 "anna" "city" ++ saysLyon 2 "ben" "town" ++
    [.context ⟨7, ⟨"project", "anna"⟩, 2, [⟨1, 0⟩]⟩,
      .feedback 3 "project" (.fact ⟨1, 0⟩) .useful,
      .mergeSubjects "project" "anna" "ben", .mergeSubjects "project" "ben" "carl"]

end Memory

end Haki
