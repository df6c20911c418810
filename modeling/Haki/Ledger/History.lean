import Haki.Data.Revision
import Haki.Requests
import Haki.Writes

/-!
# The history of a row

What every write keeps of the rows that are there.  A fact goes on to state what
it stated, under the same sources and more, and its status moves along the
lifecycle graph, one version for each edge.  A conflict set only gains members,
and only while it is open.
-/

namespace Haki

open Data Control

/-! ## Revisions -/

/-- What a fact states and was born with: a fact without its lifecycle, its reinforcement, its
retrieval axes and the name of its subject. -/
def Fact.stated (f : Fact) : Fact :=
  { f.birth with
    scope := { f.scope with subjectId := "" }
    embedding := none
    searchText := none }

/-- `f'` is `f`, later on. -/
structure Fact.Revises (f f' : Fact) : Prop where
  stated : f'.stated = f.stated
  sources : f.sourceEventIds <+: f'.sourceEventIds
  /-- Every new source is one reinforcement. -/
  reinforced : f'.reinforcementCount + f.sourceEventIds.length =
    f.reinforcementCount + f'.sourceEventIds.length
  /-- An occurrence does not become a scalar value again. -/
  form : f.memoryForm = .event → f'.memoryForm = .event
  /-- Every version is one transition of the lifecycle graph. -/
  lifecycle : ∃ path, Path allowedTransitions f.status path f'.status ∧
    f'.version = f.version + path.length
  /-- A deleted fact is not touched. -/
  final : f.status = .deleted → f' = { f with scope := f'.scope }

/-- `s'` is `s`, later on. -/
structure ConflictSet.Revises (s s' : ConflictSet) : Prop where
  id : s'.id = s.id
  kind : s'.kind = s.kind
  createdAt : s'.createdAt = s.createdAt
  project : s'.scope.projectId = s.scope.projectId
  members : s.factIds <+: s'.factIds
  /-- A closed set is not touched. -/
  closed : s.status ≠ .open → s' = { s with scope := s'.scope }

/-- A row as `create_fact` inserts it. -/
structure Fact.Drafted (f : Fact) : Prop where
  status : f.status = .candidate
  version : f.version = 1
  source : f.sourceEventIds.length = 1
  reinforcementCount : f.reinforcementCount = 0

namespace Fact.Revises

variable {f g h : Fact}

theorem refl (f : Fact) : f.Revises f where
  stated := rfl
  sources := List.prefix_refl _
  reinforced := rfl
  form hf := hf
  lifecycle := ⟨[], .nil _, rfl⟩
  final _ := rfl

theorem trans (hfg : f.Revises g) (hgh : g.Revises h) : f.Revises h where
  stated := hgh.stated.trans hfg.stated
  sources := hfg.sources.trans hgh.sources
  reinforced := by
    have h₁ := hfg.reinforced
    have h₂ := hgh.reinforced
    omega
  form hf := hgh.form (hfg.form hf)
  lifecycle := by
    obtain ⟨path, hpath, hversion⟩ := hfg.lifecycle
    obtain ⟨path', hpath', hversion'⟩ := hgh.lifecycle
    refine ⟨path ++ path', hpath.append hpath', ?_⟩
    rw [hversion', hversion, List.length_append, Nat.add_assoc]
  final hf := by
    have hg := hfg.final hf
    have hdeleted : g.status = .deleted := by
      rw [hg]
      exact hf
    have hh := hgh.final hdeleted
    rw [hg] at hh
    exact hh

/-- The same fact under another subject of its project. -/
theorem of_scope {scope : Scope} (hp : scope.projectId = f.scope.projectId) :
    f.Revises { f with scope := scope } where
  stated := by
    rw [Fact.stated, Fact.stated]
    simp only [hp]
    rfl
  sources := List.prefix_refl _
  reinforced := rfl
  form hf := hf
  lifecycle := ⟨[], .nil _, rfl⟩
  final _ := rfl

/-- One transition. -/
theorem of_transition (hstated : g.stated = f.stated) (hsources : g.sourceEventIds = f.sourceEventIds)
    (hcount : g.reinforcementCount = f.reinforcementCount)
    (hform : f.memoryForm = .event → g.memoryForm = .event)
    (hstatus : g.status ∈ allowedTransitions f.status) (hversion : g.version = f.version + 1) :
    f.Revises g where
  stated := hstated
  sources := hsources ▸ List.prefix_refl _
  reinforced := by rw [hsources, hcount]
  form := hform
  lifecycle := ⟨_, .single hstatus, hversion⟩
  final hf := by
    rw [hf] at hstatus
    exact absurd hstatus List.not_mem_nil

theorem moveTo {target : FactStatus} (ht : target ∈ allowedTransitions f.status) (now : Timestamp) :
    f.Revises (f.moveTo target now) :=
  .of_transition rfl rfl rfl (fun h ↦ h) ht rfl

/-- A fact that is not deleted and becomes an occurrence. -/
theorem reclassify (hf : f.status ≠ .deleted) (now : Timestamp) : f.Revises (f.reclassify now) where
  stated := rfl
  sources := List.prefix_refl _
  reinforced := rfl
  form _ := rfl
  lifecycle := ⟨[], .nil _, rfl⟩
  final h := absurd h hf

theorem asOccurrence (hf : f.status ≠ .deleted) (now : Timestamp) :
    f.Revises (f.asOccurrence now) := by
  rw [Fact.asOccurrence]
  split
  · exact reclassify hf now
  · next hactive =>
    refine (reclassify hf now).trans (moveTo ?_ now)
    cases hs : f.status with
    | active => exact absurd hs hactive
    | deleted => exact absurd hs hf
    | _ =>
      rw [show (f.reclassify now).status = f.status from rfl, hs]
      decide

theorem reinforcedBy (hf : f.status ≠ .deleted) (event : Event) :
    f.Revises (f.reinforcedBy event) where
  stated := rfl
  sources := List.prefix_append _ _
  reinforced := by
    simp only [Fact.reinforcedBy, List.length_append, List.length_singleton]
    omega
  form h := h
  lifecycle := ⟨[], .nil _, rfl⟩
  final h := absurd h hf

/-- The effect of a candidate on a fact that is there. -/
theorem onFact {env : Env} {db : Db} {event : Event} {c c' : Candidate} {existing : Option Fact}
    {row : Fact} {e : Effect} (hadj : Adjudicated env db event c c' existing row e)
    (hf : f ∈ db.facts) : f.Revises (e.onFact env event f) := by
  rcases @Effect.onFact_cases env event e f with h | ⟨old, rfl, hid, h⟩ |
    ⟨old, conflict, other, rfl, hid, h⟩
  · rw [h]
    exact .refl f
  · obtain ⟨hold, -, hactive⟩ := hadj.active old hadj.guard.2.1
    obtain rfl := Db.eq_of_id_eq hf hold hid
    rw [h]
    refine .of_transition rfl rfl rfl (fun h ↦ h) ?_ rfl
    rw [hactive]
    exact List.mem_cons_self
  · rw [h]
    refine asOccurrence (fun hdel ↦ ?_) _
    obtain ⟨old', hc, rfl, -, otherId, -, hother, hlive⟩ := hadj.guard
    rcases hid with hid | ⟨o, ho, hid⟩
    · obtain ⟨hold, -, hactive⟩ := hadj.active old hc.matched
      obtain rfl := Db.eq_of_id_eq hf hold hid
      cases hdel.symm.trans hactive
    · obtain rfl := Db.eq_of_id_eq hf (Db.mem_of_fact? (hother ▸ ho)) hid
      exact hlive _ ho hdel

/-- The row of a candidate, after its effect. -/
theorem onRow {env : Env} (e : Effect) (hf : f.status = .candidate) :
    f.Revises (e.onRow env f) := by
  have hactive : .active ∈ allowedTransitions f.status := by
    rw [hf]
    exact List.mem_cons_self
  cases e with
  | accept => exact moveTo hactive env.now
  | replace old => exact .of_transition rfl rfl rfl (fun h ↦ h) hactive rfl
  | overflow old conflict other =>
    exact .of_transition rfl rfl rfl (fun _ ↦ rfl) hactive rfl
  | _ => exact .refl f

theorem forgotten {mode : ForgetMode} (ht : mode.target ∈ allowedTransitions f.status)
    (now : Timestamp) : f.Revises (f.forgotten mode now) := by
  rw [Fact.forgotten]
  split
  · exact .of_transition rfl rfl rfl (fun h ↦ h) ht rfl
  · exact moveTo ht now

/-- Nothing comes after a deletion. -/
theorem deleted (h : f.Revises g) (hf : f.status = .deleted) :
    g.status = .deleted ∧ g.version = f.version := by
  rw [h.final hf]
  exact ⟨hf, rfl⟩

/-- No fact becomes a candidate again. -/
theorem candidate (h : f.Revises g) (hg : g.status = .candidate) :
    f.status = .candidate ∧ g.version = f.version := by
  obtain ⟨path, hpath, hversion⟩ := h.lifecycle
  obtain ⟨rfl, hs⟩ := hpath.eq_of_initial fun s ↦ by
    rw [hg]
    cases s <;> decide
  exact ⟨hs.symm.trans hg, hversion⟩

end Fact.Revises

namespace ConflictSet.Revises

variable {s s' s'' : ConflictSet}

theorem refl (s : ConflictSet) : s.Revises s := ⟨rfl, rfl, rfl, rfl, List.prefix_refl _, fun _ ↦ rfl⟩

theorem trans (h : s.Revises s') (h' : s'.Revises s'') : s.Revises s'' where
  id := h'.id.trans h.id
  kind := h'.kind.trans h.kind
  createdAt := h'.createdAt.trans h.createdAt
  project := h'.project.trans h.project
  members := h.members.trans h'.members
  closed hs := by
    have hs' := h.closed hs
    have hclosed : s'.status ≠ .open := by
      rw [hs']
      exact hs
    have hs'' := h'.closed hclosed
    rw [hs'] at hs''
    exact hs''

/-- The same set under another subject of its project. -/
theorem of_scope {scope : Scope} (hp : scope.projectId = s.scope.projectId) :
    s.Revises { s with scope := scope } :=
  ⟨rfl, rfl, rfl, hp, List.prefix_refl _, fun _ ↦ rfl⟩

/-- An open set gains members or is closed. -/
theorem of_open (ho : s.status = .open) (ids : List FactId) (status : ConflictStatus)
    (resolvedAt : Option Timestamp) :
    s.Revises { s with factIds := s.factIds ++ ids, status := status, resolvedAt := resolvedAt } :=
  ⟨rfl, rfl, rfl, rfl, List.prefix_append _ _, fun h ↦ absurd ho h⟩

theorem resolve (ho : s.status = .open) (now : Timestamp) : s.Revises (s.resolve now) := by
  have h := of_open ho [] .resolved (some now)
  rwa [List.append_nil] at h

end ConflictSet.Revises

/-! ## Writes -/

/-- A set as it is opened. -/
def ConflictSet.Opened (s : ConflictSet) : Prop := s.status = .open

theorem newConflictSet_opened (env : Env) (db : Db) (event : Event) (ids : List FactId)
    (kind : ConflictKind) : (newConflictSet env db event ids kind).Opened := rfl

/-- The ledger later on: every row is there, and the others were drafted and opened in between. -/
structure Db.Evolves (db db' : Db) : Prop where
  facts : db.facts.Evolves Fact.Revises Fact.Drafted db'.facts
  conflictSets : db.conflictSets.Evolves ConflictSet.Revises ConflictSet.Opened db'.conflictSets

namespace Db.Evolves

variable {db db' db'' : Db} {id : FactId}

theorem refl (db : Db) : db.Evolves db := ⟨.refl .refl _, .refl .refl _⟩

theorem trans (h : db.Evolves db') (h' : db'.Evolves db'') : db.Evolves db'' :=
  ⟨h.facts.trans (fun _ _ _ ↦ .trans) h'.facts,
    h.conflictSets.trans (fun _ _ _ ↦ .trans) h'.conflictSets⟩

/-- One fact is revised. -/
theorem updateFact {g : Fact → Fact} (hid : ∀ f, (g f).id = f.id)
    (hg : ∀ f, db.fact? id = some f → f.Revises (g f)) : db.Evolves (db.updateFact id g) :=
  ⟨.update .refl hid fun f hf hk ↦ hg f (Db.fact?_eq_some_iff.mpr ⟨hf, hk⟩), .refl .refl _⟩

theorem transition {now : Timestamp} {target : FactStatus}
    (h : transitionFactStatus now db id target = .ok db') : db.Evolves db' := by
  obtain ⟨f, hf, ht, rfl, -⟩ := transitionFactStatus_eq_ok h
  refine updateFact (fun _ ↦ rfl) fun f' hf' ↦ ?_
  obtain rfl := Option.some.inj (hf.symm.trans hf')
  exact .moveTo ht now

theorem resolveMember {now : Timestamp} {keep : FactId}
    (h : Haki.resolveMember now keep db id = .ok db') : db.Evolves db' := by
  rw [Haki.resolveMember] at h
  split at h
  · obtain ⟨f, hf, ⟨-, rfl⟩ | ⟨hactive, hdisabled, hdeleted, rfl, -⟩⟩ := keepMember_eq_ok h
    · exact .refl _
    · refine updateFact (fun _ ↦ rfl) fun f' hf' ↦ ?_
      obtain rfl := Option.some.inj (hf.symm.trans hf')
      refine .moveTo ?_ now
      cases hs : f.status <;> simp_all [allowedTransitions]
  · obtain ⟨f, hf, ⟨-, rfl⟩ | ⟨⟨hsuperseded, hdisabled, hdeleted⟩, rfl, -⟩⟩ := loseMember_eq_ok h
    · exact .refl _
    · refine updateFact (fun _ ↦ rfl) fun f' hf' ↦ ?_
      obtain rfl := Option.some.inj (hf.symm.trans hf')
      refine .of_transition rfl rfl rfl (fun h ↦ h) ?_ rfl
      change .superseded ∈ allowedTransitions f.status
      cases hs : f.status <;> simp_all [allowedTransitions]

theorem resolveConflict {now : Timestamp} {projectId : String} {set : ConflictId} {keep : FactId}
    (h : Haki.resolveConflict now db projectId set keep = .ok db') : db.Evolves db' := by
  obtain ⟨conflict, db₁, hc, ho, -, hwalk, rfl⟩ := resolveConflict_eq_ok h
  have hmembers : db.Evolves db₁ :=
    foldlM_preserves (I := db.Evolves) (fun _ _ _ hI h ↦ hI.trans (resolveMember h)) (.refl db) hwalk
  have hsets : db₁.conflictSets = db.conflictSets := (resolveMembers_moves hwalk).conflictSets
  refine hmembers.trans ⟨.refl .refl _, .update .refl (fun _ ↦ rfl) fun s hs hid ↦ ?_⟩
  obtain ⟨hmem, hkey⟩ := Table.get?_eq_some_iff.mp hc
  obtain rfl : s = conflict := Table.eq_of_key_eq (hsets ▸ hs) hmem (hid.trans hkey.symm)
  exact .resolve ho now

theorem forgetFact {now : Timestamp} {projectId : String} {mode : ForgetMode}
    (h : Haki.forgetFact now db projectId id mode = .ok db') : db.Evolves db' := by
  obtain ⟨f, -, h⟩ := bind_eq_ok.mp h
  split at h
  · cases h
    exact .refl _
  · obtain ⟨db₁, h₁, h⟩ := bind_eq_ok.mp h
    obtain ⟨f, hf, ht, rfl, -⟩ := transitionFactStatus_eq_ok h₁
    have hupdate : db' = db.updateFact id (·.forgotten mode now) := by
      cases h
      cases mode with
      | disable => rfl
      | delete =>
        rw [if_pos rfl, Db.updateFact_updateFact_self (Fact.moveTo_id · _ now) Fact.purgeAxes_id]
        rfl
    rw [hupdate]
    refine updateFact (Fact.forgotten_id mode now) fun f' hf' ↦ ?_
    obtain rfl := Option.some.inj (hf.symm.trans hf')
    exact .forgotten ht now

theorem submitFeedback {now : Timestamp} {projectId : String} {rating : Rating}
    (h : Haki.submitFeedback now db projectId id rating = .ok db') : db.Evolves db' := by
  obtain ⟨f, -, h⟩ := bind_eq_ok.mp h
  split at h
  · exact transition h
  · cases h
    exact .refl _

theorem disableSubject {now : Timestamp} {scope : Scope}
    (h : Haki.disableSubject now db scope = .ok db') : db.Evolves db' :=
  foldlM_preserves (I := db.Evolves) (fun _ _ _ hI h ↦ hI.trans (transition h)) (.refl db) h

/-- What a candidate does to the conflict sets. -/
theorem onSets {env : Env} {event : Event} {c c' : Candidate} {existing : Option Fact} {row : Fact}
    {e : Effect} (hadj : Adjudicated env db event c c' existing row e) :
    db.conflictSets.Evolves ConflictSet.Revises ConflictSet.Opened
      (e.onSets env event db row.id) := by
  cases e with
  | hold => exact .insert (.refl .refl _) (newConflictSet_opened env db event _ _) (.refl _)
  | openConflict old => exact .insert (.refl .refl _) (newConflictSet_opened env db event _ _) (.refl _)
  | joinConflict conflict =>
    refine .update .refl (fun _ ↦ rfl) fun s hs hid ↦ ?_
    obtain ⟨_, -, hopen, -⟩ := hadj.guard
    obtain ⟨hmem, -, ho, -⟩ := Db.openConflictSet_some hopen
    obtain rfl : s = conflict := Table.eq_of_key_eq hs hmem hid
    exact .of_open ho _ _ _
  | overflow old conflict other =>
    refine .update .refl (fun _ ↦ rfl) fun s hs hid ↦ ?_
    obtain ⟨_, -, -, hfull, -⟩ := hadj.guard
    obtain ⟨hmem, -, ho, -⟩ := Db.openConflictSet_some hfull.openSet
    obtain rfl : s = conflict := Table.eq_of_key_eq hs hmem hid
    exact .of_open ho _ _ _
  | accept | replace => exact .refl .refl _

theorem applyCandidate {env : Env} {c : Candidate} {embedding : Embedding} {event : Event}
    {result result' : JobResult} (hu : db.UniqueActive)
    (h : Haki.applyCandidate env db c embedding event result = .ok (db', result')) :
    db.Evolves db' := by
  cases hm : (matchCandidate env db c embedding event).1 with
  | duplicate f =>
    obtain ⟨aliases, heq⟩ := applyCandidate_duplicate hm
    rw [heq] at h
    split at h
    · cases h
      exact ⟨.refl .refl _, .refl .refl _⟩
    · next hlive =>
      cases h
      have hactive : f.status = .active := not_not.mp (not_or.mp hlive).1
      have hmem := (matchCandidate_duplicate hm).1
      refine ⟨.update .refl (fun _ ↦ rfl) fun f' hf' hid ↦ ?_, .refl .refl _⟩
      obtain rfl := Db.eq_of_id_eq hf' hmem hid
      exact .reinforcedBy (by simp [hactive]) event
  | against c' existing =>
    obtain ⟨aliases, row, e, hrow, he, -, rfl, -⟩ := applyCandidate_written hu hm h
    have hadj := adjudicated_of_row hm hrow he
    obtain ⟨_, _, hcolumns⟩ := candidateRow_eq_ok hrow
    have hdrafted : row.Drafted := by
      rw [hcolumns]
      exact ⟨rfl, rfl, rfl, rfl⟩
    refine ⟨?_, onSets hadj⟩
    exact .insert (.modify (e.onFact_id env event) fun f hf ↦ .onFact hadj hf) hdrafted
      (.onRow e hdrafted.status)

end Db.Evolves

end Haki
