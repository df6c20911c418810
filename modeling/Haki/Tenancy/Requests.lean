import Haki.Tenancy.Confined

/-!
# Requests of a project

`Request.Of owner p` says that a request is one of project `p`: it names the
project, and its event ids are those the project owns.  A request of a project
stays in it (`Request.exec_stays`).
-/

namespace Haki

open Data Control

/-- The request is one of the project `p`.  An id is never drawn twice, so `owner` is a function:
the captured event is the only one with its id, a job is enqueued for the project that captured its
events, and a packet is journaled with facts of the project it was built for. -/
def Request.Of (owner : EventId → String) (p : String) : Request → Prop
  | .capture event _ => event.scope.projectId = p ∧ owner event.id = p
  | .consolidate _ _ eventIds _ => ∀ id ∈ eventIds, owner id = p
  | .resolveConflict _ projectId _ _ => projectId = p
  | .forgetFact _ projectId _ _ => projectId = p
  | .forgetSubject _ scope _ => scope.projectId = p
  | .feedback _ projectId _ _ => projectId = p
  | .context trace => trace.scope.projectId = p ∧ ∀ id ∈ trace.factIds, owner id.event = p
  | .resolveAlias projectId _ _ _ => projectId = p
  | .mergeSubjects projectId _ _ => projectId = p

/-- Nothing but rows of the project `p` changed. -/
def Memory.Confined (p : String) (m m' : Memory) : Prop :=
  ∀ keep : String → Bool, keep p = false → m'.only keep = m.only keep

/-- A step that stays in the project `p`. -/
structure Memory.Stays (owner : EventId → String) (p : String) (m m' : Memory) : Prop where
  unique : m'.ledger.UniqueActive
  owned : m'.Owned owner
  confined : m.Confined p m'

theorem Memory.Owned.empty (owner : EventId → String) : Memory.empty.Owned owner :=
  ⟨.empty, fun _ h ↦ absurd h (Table.notMem_empty _), by rintro _ ⟨⟩⟩

variable {owner : EventId → String} {env : Env} {p : String} {m m' : Memory}

namespace Memory.Stays

theorem refl (hu : m.ledger.UniqueActive) (ho : m.Owned owner) : m.Stays owner p m :=
  ⟨hu, ho, fun _ _ ↦ rfl⟩

/-- A step on the ledger alone. -/
theorem of_ledger {ledger : Db} (ho : m.Owned owner) (h : m.ledger.Stays owner p ledger) :
    m.Stays owner p { m with ledger := ledger } := by
  refine ⟨h.unique, ⟨h.owned, ho.episodeChunks, ho.feedback⟩, fun keep hkeep ↦ ?_⟩
  rw [Memory.only, Memory.only]
  dsimp only
  rw [h.confined keep hkeep]

/-- A step on the aliases alone. -/
theorem of_aliases {aliases : Table SubjectAlias} (hu : m.ledger.UniqueActive) (ho : m.Owned owner)
    (h : aliases = m.subjectAliases ∨ ∃ a : SubjectAlias, a.projectId = p ∧
      aliases = m.subjectAliases.insert a) : m.Stays owner p { m with subjectAliases := aliases } := by
  refine ⟨hu, ⟨ho.ledger, ho.episodeChunks, ho.feedback⟩, fun keep hkeep ↦ ?_⟩
  rw [Memory.only, Memory.only]
  dsimp only
  rcases h with rfl | ⟨a, ha, rfl⟩
  · rfl
  · rw [Table.filter_insert_of_false (show visible keep a = false from (congrArg keep ha).trans hkeep)]

theorem trans {m'' : Memory} (h : m.Stays owner p m') (h' : m'.Stays owner p m'') :
    m.Stays owner p m'' :=
  ⟨h'.unique, h'.owned, fun keep hkeep ↦ (h'.confined keep hkeep).trans (h.confined keep hkeep)⟩

end Memory.Stays

/-! ## The requests -/

/-- A capture registers at most an alias of the project of the event. -/
theorem captureSubject_aliases {aliases aliases' : Table SubjectAlias} {scope : Scope}
    {subjectAlias : Option (String × String)} {subjectId : String}
    (h : captureSubject aliases scope subjectAlias = .ok (subjectId, aliases')) :
    aliases' = aliases ∨ ∃ a : SubjectAlias, a.projectId = scope.projectId ∧
      aliases' = aliases.insert a := by
  rcases captureSubject_eq_ok h with ⟨rfl, -⟩ | ⟨-, -, a, -, -, -, hresolves, rfl⟩
  · exact .inl rfl
  · exact .inr ⟨a, congrArg Scope.projectId hresolves, rfl⟩

theorem Memory.capture_stays {event : Event} {subjectAlias : Option (String × String)}
    (hu : m.ledger.UniqueActive) (ho : m.Owned owner) (hp : event.scope.projectId = p)
    (hevent : owner event.id = p) (h : m.capture event subjectAlias = .ok m') :
    m.Stays owner p m' := by
  obtain ⟨subjectId, aliases, hsubject, -, rfl⟩ := Memory.capture_eq_ok h
  have haliases := Memory.Stays.of_aliases hu ho (hp ▸ captureSubject_aliases hsubject)
  refine haliases.trans (.of_ledger haliases.owned ⟨hu, ?_, fun keep hkeep ↦ ?_⟩)
  · refine ⟨fun e he ↦ ?_, ho.ledger.facts, ho.ledger.conflictSets, ho.ledger.contextTraces⟩
    rcases Table.mem_of_mem_insert he with he | rfl
    · exact ho.ledger.events e he
    · exact hevent.trans hp.symm
  · rw [Db.only, Db.only]
    dsimp only
    have hhidden : visible keep { event with scope.subjectId := subjectId } = false :=
      (congrArg keep hp).trans hkeep
    rw [Table.filter_insert_of_false hhidden]

theorem eventChunks_scope {event : Event} {c : EpisodeChunk} (h : c ∈ eventChunks env event) :
    c.id.event = event.id ∧ c.scope = event.scope := by
  obtain ⟨-, -, rfl⟩ := List.mem_map.mp h
  exact ⟨rfl, rfl⟩

theorem Memory.consolidate_stays {extract : Extractor} {eventIds : List EventId}
    {only : Option (List EventId)} (hu : m.ledger.UniqueActive) (ho : m.Owned owner)
    (hids : ∀ id ∈ eventIds, owner id = p)
    (h : m.consolidate env extract eventIds only = .ok m') : m.Stays owner p m' := by
  obtain ⟨⟨ledger, result⟩, hjob, h⟩ := bind_eq_ok.mp h
  cases h
  have hledger := processJob_stays hu ho.ledger hids (mapError_eq_ok.mp hjob)
  obtain ⟨-, howned, hconfined⟩ := Memory.Stays.of_ledger ho hledger
  refine ⟨hledger.unique, ⟨hledger.owned, fun c hc ↦ ?_, ho.feedback⟩, fun keep hkeep ↦ ?_⟩
  · rcases mem_writeEpisodeChunks hc with hc | ⟨e, he, hid, hscope⟩
    · exact ho.episodeChunks c hc
    · rw [← hid, ← hscope]
      exact ho.ledger.events e (mem_jobEvents he)
  · have hchunks : (writeEpisodeChunks env m.episodeChunks (jobEvents m.ledger eventIds only)).filter
        (visible keep) = m.episodeChunks.filter (visible keep) := by
      refine Table.filter_foldl_insert_of_false fun c hc ↦ ?_
      obtain ⟨e, he, hc⟩ := List.mem_flatMap.mp hc
      have he := (List.mem_filter.mp he).1
      have hproject : c.scope.projectId = p := by
        rw [(eventChunks_scope hc).2, ← ho.ledger.events e (mem_jobEvents he)]
        exact hids e.id (mem_jobEvents_id he)
      exact (congrArg keep hproject).trans hkeep
    have hrest := hconfined keep hkeep
    rw [Memory.only, Memory.only] at hrest ⊢
    dsimp only at hrest ⊢
    rw [hchunks]
    exact hrest

theorem Memory.submitFeedback_stays {now : Timestamp} {target : FeedbackTarget} {rating : Rating}
    (hu : m.ledger.UniqueActive) (ho : m.Owned owner)
    (h : m.submitFeedback now p target rating = .ok m') : m.Stays owner p m' := by
  obtain ⟨ledger, hledger, h⟩ := bind_eq_ok.mp h
  cases h
  have hledger := mapError_eq_ok.mp hledger
  have hstays : m.ledger.Stays owner p ledger := by
    cases target with
    | trace id =>
      cases hledger
      exact .refl hu ho.ledger
    | fact id => exact Haki.submitFeedback_stays hu ho.ledger hledger
  obtain ⟨-, howned, hconfined⟩ := Memory.Stays.of_ledger ho hstays
  refine ⟨hstays.unique, ⟨hstays.owned, howned.episodeChunks, fun row hrow id hid ↦ ?_⟩,
    fun keep hkeep ↦ ?_⟩
  · rcases List.mem_append.mp hrow with hrow | hrow
    · exact ho.feedback row hrow id hid
    · obtain rfl := List.mem_singleton.mp hrow
      cases target with
      | trace id => cases hid
      | fact factId =>
        obtain rfl : factId = id := Option.some.inj hid
        obtain ⟨f, hf, -⟩ := bind_eq_ok.mp hledger
        exact (getProjectFact_owner ho.ledger hf).2
  · have hrow : visible keep (Feedback.of p rating target) = false := by
      cases target <;> exact hkeep
    have hrest := hconfined keep hkeep
    rw [Memory.only, Memory.only] at hrest ⊢
    dsimp only at hrest ⊢
    rw [List.filter_append, List.filter_cons_of_neg (ne_true_of_eq_false hrow), List.filter_nil,
      List.append_nil]
    exact hrest

/-- Erasing a subject erases nothing of another project: neither by cascade nor by clearing a
reference. -/
theorem Memory.deleteSubject_stays (scope : Scope) (hu : m.ledger.UniqueActive)
    (ho : m.Owned owner) : m.Stays owner scope.projectId (m.deleteSubject scope) := by
  have hledger := Haki.deleteSubject_stays scope hu ho.ledger
  refine ⟨hledger.unique, ⟨hledger.owned, fun c hc ↦ ?_, fun row hrow id hid ↦ ?_⟩,
    fun keep hkeep ↦ ?_⟩
  · exact ho.episodeChunks c (Table.mem_filter.mp hc).1
  · obtain ⟨row', hrow', rfl⟩ := List.mem_map.mp hrow
    have hrow' := (List.mem_filter.mp hrow').1
    split at hid
    · cases hid
    · next hnot =>
      rw [if_neg hnot]
      exact ho.feedback row' hrow' id hid
  · have hother {q : String} (hq : keep q = true) : q ≠ scope.projectId := by
      rintro rfl
      rw [hkeep] at hq
      cases hq
    have hchunks : ∀ c ∈ m.episodeChunks, visible keep c = true →
        ¬ ∃ e ∈ m.ledger.events, e.id = c.id.event ∧ e.scope = scope := by
      rintro c hc hvisible ⟨e, he, hid, hscope⟩
      refine hother hvisible ?_
      show c.scope.projectId = _
      rw [← ho.episodeChunks c hc, ← hid, ho.ledger.events e he, hscope]
    have hrows : ∀ row ∈ m.feedback, visible keep row = true → ¬ m.OnFactOf scope row := by
      rintro row hrow hvisible ⟨id, hid, f, hf, hfid, hscope⟩
      refine hother hvisible ?_
      show row.projectId = _
      rw [← ho.feedback row hrow id hid, ← hfid, (ho.ledger.facts f hf).born, hscope]
    rw [Memory.only, Memory.only, Memory.deleteSubject]
    dsimp only
    rw [hledger.confined keep hkeep]
    congr 1
    · rw [Table.filter_comm]
      refine Table.filter_eq_self fun c hc ↦ decide_eq_true ?_
      exact hchunks c (Table.mem_filter.mp hc).1 (Table.mem_filter.mp hc).2
    · rw [Table.filter_comm]
      refine Table.filter_eq_self fun a ha ↦ decide_eq_true fun h ↦ ?_
      exact hother (Table.mem_filter.mp ha).2 h.1
    · rw [filter_map_of_eq fun row _ ↦ ?_, filter_comm]
      · have hvisible : ∀ row ∈ m.feedback.filter (visible keep), ¬ m.OnFactOf scope row :=
          fun row hrow ↦ hrows row (List.mem_filter.mp hrow).1 (List.mem_filter.mp hrow).2
        refine (congrArg (List.map _)
          (List.filter_eq_self.mpr fun row hrow ↦ decide_eq_true ?_)).trans ?_
        · exact fun h ↦ hvisible row hrow h.2
        · exact (List.map_congr_left fun row hrow ↦ if_neg (hvisible row hrow)).trans (List.map_id _)
      · split <;> rfl

/-! ## Merges -/

@[simp] theorem Scope.merge_projectId (p source target : String) (s : Scope) :
    (Scope.merge p source target s).projectId = s.projectId := by
  rw [Scope.merge, rename]
  split
  · next hs => rw [hs]
  · rfl

/-- A merge leaves the subjects of other projects as they are. -/
theorem Scope.merge_of_ne {source target : String} {s : Scope} (h : s.projectId ≠ p) :
    Scope.merge p source target s = s :=
  rename_of_ne fun hs ↦ h (congrArg Scope.projectId hs)

section

variable {α : Type} [Tenanted α] [Scoped α] {source target : String} {keep : String → Bool}

theorem projectId_rescope (htenant : ∀ a : α, Tenanted.projectId a = (Scoped.scope a).projectId)
    (a : α) :
    Tenanted.projectId (rescope (Scope.merge p source target) a) = Tenanted.projectId a := by
  rw [htenant, htenant, rescope, Scoped.scope_withScope, Scope.merge_projectId]

/-- Seen from another project, a merge moves nothing. -/
theorem rescope_fixed (htenant : ∀ a : α, Tenanted.projectId a = (Scoped.scope a).projectId)
    (hkeep : keep p = false) (a : α) :
    visible keep (rescope (Scope.merge p source target) a) = visible keep a ∧
      (visible keep a = true → rescope (Scope.merge p source target) a = a) := by
  refine ⟨congrArg keep (projectId_rescope htenant a), fun hvisible ↦ ?_⟩
  have hne : (Scoped.scope a).projectId ≠ p := by
    rintro rfl
    rw [visible, htenant, hkeep] at hvisible
    cases hvisible
  rw [rescope, Scope.merge_of_ne hne, Scoped.withScope_scope]

theorem Table.hidden_rescope {κ : Type} [Keyed α κ] [DecidableEq κ]
    (hkey : ∀ a : α, key (rescope (Scope.merge p source target) a) = key a)
    (htenant : ∀ a : α, Tenanted.projectId a = (Scoped.scope a).projectId)
    (hkeep : keep p = false) (t : Table α) :
    (t.modify (rescope (Scope.merge p source target))).filter (visible keep) =
      t.filter (visible keep) :=
  Table.filter_modify_of_fixed hkey fun a _ ↦ rescope_fixed htenant hkeep a

end

theorem Db.rescoped_owned {ledger : Db} (source target : String) (ho : ledger.Owned owner) :
    (ledger.rescoped (Scope.merge p source target)).Owned owner := by
  refine ⟨fun e' he' ↦ ?_, fun f' hf' ↦ ?_, fun s' hs' ↦ ?_, fun t' ht' id hid ↦ ?_⟩
  · obtain ⟨e, he, rfl⟩ := (Table.mem_modify (f := rescope _) fun _ ↦ rfl).mp he'
    exact (ho.events e he).trans (e.scope.merge_projectId p source target).symm
  · obtain ⟨f, hf, rfl⟩ := (Table.mem_modify (f := rescope _) fun _ ↦ rfl).mp hf'
    exact (ho.facts f hf).congr rfl (f.scope.merge_projectId p source target) rfl
  · obtain ⟨s, hs, rfl⟩ := (Table.mem_modify (f := rescope _) fun _ ↦ rfl).mp hs'
    have hproject := (s.scope.merge_projectId p source target).symm
    obtain ⟨hborn, hmembers⟩ := ho.conflictSets s hs
    exact ⟨hborn.trans hproject, fun id hid ↦ (hmembers id hid).trans hproject⟩
  · obtain ⟨t, ht, rfl⟩ := List.mem_map.mp ht'
    exact (ho.contextTraces t ht id hid).trans (t.scope.merge_projectId p source target).symm

theorem Db.rescoped_confined (source target : String) (ledger : Db) :
    ledger.Confined p (ledger.rescoped (Scope.merge p source target)) := by
  intro keep hkeep
  rw [Db.only, Db.only, Db.rescoped]
  dsimp only
  rw [Table.hidden_rescope (fun _ ↦ rfl) (fun _ ↦ rfl) hkeep,
    Table.hidden_rescope (fun _ ↦ rfl) (fun _ ↦ rfl) hkeep,
    Table.hidden_rescope (fun _ ↦ rfl) (fun _ ↦ rfl) hkeep,
    filter_map_of_fixed fun t _ ↦ rescope_fixed (fun _ ↦ rfl) hkeep t]

@[simp] theorem SubjectAlias.repoint_projectId (source target : String) (a : SubjectAlias) :
    (a.repoint p source target).projectId = a.projectId := by
  rw [SubjectAlias.repoint]
  split <;> rfl

/-- A merge stays in its project. -/
theorem Memory.mergeSubjects_stays {source target : String} {receipt : SubjectMergeReceipt}
    (ho : m.Owned owner) (h : m.mergeSubjects p source target = .ok (m', receipt)) :
    m.Stays owner p m' := by
  obtain ⟨-, hunique, -, rfl⟩ := Memory.mergeSubjects_eq_ok h
  refine ⟨hunique, ⟨Db.rescoped_owned source target ho.ledger, fun c' hc' ↦ ?_, ho.feedback⟩,
    fun keep hkeep ↦ ?_⟩
  · obtain ⟨c, hc, rfl⟩ := (Table.mem_modify (f := rescope _) fun _ ↦ rfl).mp hc'
    exact (ho.episodeChunks c hc).trans (c.scope.merge_projectId p source target).symm
  · have haliases : (m.subjectAliases.modify (SubjectAlias.repoint p source target)).filter
        (visible keep) = m.subjectAliases.filter (visible keep) := by
      refine Table.filter_modify_of_fixed (key_repoint p source target) fun a _ ↦ ⟨?_, fun hv ↦ ?_⟩
      · exact congrArg keep (a.repoint_projectId source target)
      · refine if_neg fun h ↦ ?_
        have hv : keep a.projectId = true := hv
        rw [h.1, hkeep] at hv
        cases hv
    have htombstone : visible keep (⟨p, tombstoneKind, source, target⟩ : SubjectAlias) = false :=
      hkeep
    have hreceipt : visible keep (m.receipt p source target) = false := hkeep
    rw [Memory.only, Memory.only]
    dsimp only
    rw [Db.rescoped_confined source target m.ledger keep hkeep,
      Table.hidden_rescope (fun _ ↦ rfl) (fun _ ↦ rfl) hkeep,
      Table.filter_insert_of_false htombstone, haliases, List.filter_append,
      List.filter_cons_of_neg (ne_true_of_eq_false hreceipt), List.filter_nil, List.append_nil]

/-! ## Staying -/

/-- **Frame.**  A request of a project leaves every row owned, and changes no row of another
project. -/
theorem Request.exec_stays {request : Request} (hof : request.Of owner p)
    (hu : m.ledger.UniqueActive) (ho : m.Owned owner) (h : request.exec env m = .ok m') :
    m.Stays owner p m' := by
  cases request with
  | capture event subjectAlias => exact Memory.capture_stays hu ho hof.1 hof.2 h
  | consolidate now extract eventIds only => exact Memory.consolidate_stays hu ho hof h
  | resolveConflict now projectId id keep =>
    obtain ⟨ledger, hledger, h⟩ := bind_eq_ok.mp h
    cases h
    cases hof
    exact .of_ledger ho (resolveConflict_stays hu ho.ledger (mapError_eq_ok.mp hledger))
  | forgetFact now projectId id mode =>
    obtain ⟨ledger, hledger, h⟩ := bind_eq_ok.mp h
    cases h
    cases hof
    exact .of_ledger ho (forgetFact_stays hu ho.ledger (mapError_eq_ok.mp hledger))
  | forgetSubject now scope mode =>
    cases hof
    cases mode with
    | disable =>
      obtain ⟨ledger, hledger, h⟩ := bind_eq_ok.mp h
      cases h
      exact .of_ledger ho (disableSubject_stays hu ho.ledger (mapError_eq_ok.mp hledger))
    | delete =>
      cases h
      exact Memory.deleteSubject_stays scope hu ho
  | feedback now projectId target rating =>
    cases hof
    exact Memory.submitFeedback_stays hu ho h
  | context trace =>
    cases h
    refine .of_ledger ho ⟨hu, ⟨ho.ledger.events, ho.ledger.facts, ho.ledger.conflictSets,
      fun t ht id hid ↦ ?_⟩, fun keep hkeep ↦ ?_⟩
    · rcases List.mem_append.mp ht with ht | ht
      · exact ho.ledger.contextTraces t ht id hid
      · obtain rfl := List.mem_singleton.mp ht
        exact (hof.2 id hid).trans hof.1.symm
    · have hhidden : visible keep trace = false := (congrArg keep hof.1).trans hkeep
      rw [Db.only, Db.only]
      dsimp only
      rw [List.filter_append, List.filter_cons_of_neg (ne_true_of_eq_false hhidden),
        List.filter_nil, List.append_nil]
  | resolveAlias projectId aliasKind aliasValue canonicalSubjectId =>
    cases hof
    obtain ⟨⟨row, created, aliases⟩, hresolve, h⟩ := bind_eq_ok.mp h
    cases h
    refine .of_aliases hu ho ?_
    rcases resolveAlias_eq_ok hresolve with ⟨-, -, -, -, rfl⟩ | ⟨a, -, ha, -, -, rfl⟩
    · exact .inl rfl
    · exact .inr ⟨a, ha, rfl⟩
  | mergeSubjects projectId source target =>
    cases hof
    obtain ⟨⟨m', receipt⟩, hmerge, rfl⟩ := map_eq_ok.mp h
    exact Memory.mergeSubjects_stays ho hmerge

end Haki
