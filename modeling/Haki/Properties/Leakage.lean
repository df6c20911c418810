import Haki.Api.Stats
import Haki.Properties.Lineage
import Haki.Properties.Resolution
import Mathlib.Data.List.Induction

/-!
# The leakage metric and what was really served

The metric dates the supersession of a fact by every resolved set that lists
it and by every row that points at it.  Both also concern facts that win a
resolution.  `leakedPackets_contained_superseded` says when a counted packet
really contained a superseded fact: as long as nothing replaces or rejects a
fact that was served after it had won.
-/

namespace Haki

open Data Control

variable {env : Env} {db db' : Db} {event : Event} {c c' : Candidate} {existing : Option Fact}
  {row f : Fact} {e : Effect} {now : Timestamp} {keep id : FactId} {op : Op} {ops : List Op}
  {trace : ContextTrace} {projectId : String} {moment : Timestamp}

/-! ## Histories -/

/-- The system time of a consolidation, a resolution or a context call. -/
def Op.time : Op → Option Timestamp
  | .consolidate now _ _ _ | .resolve now _ _ _ => some now
  | .serve trace => some trace.createdAt
  | _ => none

/-- The system times of a history increase. -/
def TimesIncrease (ops : List Op) : Prop := (ops.filterMap Op.time).Pairwise (· < ·)

/-- The packet was served, and no fact in it was superseded then. -/
def ServedClean (env : Env) (ops : List Op) (trace : ContextTrace) : Prop :=
  ∃ pre post, ops = pre ++ .serve trace :: post ∧
    ∀ f ∈ (runOps env .empty pre).facts, f.id ∈ trace.factIds → f.status ≠ .superseded

/-! ## Winners that were served -/

/-- By the time, a set that lists the fact was resolved, or a row that points at it was recorded: the
marks a resolution leaves of the fact that wins it and of those that lose against it. -/
def Db.DecidedBy (db : Db) (id : FactId) (t : Timestamp) : Prop :=
  (∃ s ∈ db.conflictSets, s.status = .resolved ∧ id ∈ s.factIds ∧ ∃ r ∈ s.resolvedAt, r ≤ t) ∨
    ∃ f ∈ db.facts, f.supersedesId = some id ∧ f.recordedFrom ≤ t

/-- A packet listed the fact when it bore such a mark. -/
def Db.ServedDecided (db : Db) (id : FactId) : Prop :=
  ∃ trace ∈ db.contextTraces, id ∈ trace.factIds ∧ db.DecidedBy id trace.createdAt

instance (db : Db) (id : FactId) : Decidable (db.ServedDecided id) :=
  inferInstanceAs (Decidable (∃ trace ∈ db.contextTraces, id ∈ trace.factIds ∧ (_ ∨ _)))

/-- The candidate supersedes a fact that was served after it had won. -/
def ReplacesServed (env : Env) (event : Event) (db : Db) (c : Candidate) : Prop :=
  ∃ c' old, (matchCandidate env db c (candidateEmbedding env c) event).1 = .against c' (some old) ∧
    ¬ HeldBack event (some old) ∧ c'.action = .supersede ∧ db.ServedDecided old.id

instance (env : Env) (event : Event) (db : Db) (c : Candidate) :
    Decidable (ReplacesServed env event db c) :=
  Match.decidableAgainst _ _

/-- The resolution rejects a fact that was served after it had won. -/
def RejectsServed (db : Db) : Op → Prop
  | .resolve _ _ id keep => ∃ s ∈ db.conflictSet? id, ∃ f ∈ db.facts, f.id ∈ s.factIds ∧ f.id ≠ keep ∧
    f.status ≠ .superseded ∧ db.ServedDecided f.id
  | _ => False

instance (db : Db) (op : Op) : Decidable (RejectsServed db op) :=
  match op with
  | .resolve _ _ id keep => inferInstanceAs (Decidable (∃ s ∈ db.conflictSet? id, ∃ f ∈ db.facts,
      f.id ∈ s.factIds ∧ f.id ≠ keep ∧ f.status ≠ .superseded ∧ db.ServedDecided f.id))
  | .capture _ | .consolidate _ _ _ _ | .forgetFact _ _ _ _ | .forgetSubject _ _ _
  | .feedback _ _ _ _ | .serve _ => inferInstanceAs (Decidable False)

/-- A moment of the metric that is not later than a packet is such a mark. -/
theorem decidedBy_of_moment {t : Timestamp} (h : moment ∈ db.supersededMoments projectId id)
    (hle : moment ≤ t) : db.DecidedBy id t := by
  rcases mem_supersededMoments.mp h with ⟨g, hg, -, hl, rfl⟩ | ⟨s, hs, -, hr, hid, hat⟩
  · exact .inr ⟨g, hg, hl, hle⟩
  · exact .inl ⟨s, hs, hr, hid, moment, hat, hle⟩

theorem runOps_concat (ops : List Op) (op : Op) :
    runOps env .empty (ops ++ [op]) = op.run env (runOps env .empty ops) :=
  List.foldl_concat ..

/-! ## The moments an operation adds -/

/-- Every moment of the second ledger is one of the first, or now. -/
def MomentsUpTo (now : Timestamp) (db db' : Db) : Prop :=
  ∀ projectId id, ∀ moment ∈ db'.supersededMoments projectId id,
    moment ∈ db.supersededMoments projectId id ∨ moment = now

/-- A candidate adds the moment at which its row is recorded, if it replaces a fact. -/
theorem applyCandidate_moments {embedding : Embedding} {result result' : JobResult}
    (hu : db.UniqueActive)
    (h : applyCandidate env db c embedding event result = .ok (db', result')) :
    MomentsUpTo env.now db db' := by
  intro projectId id moment hm
  cases applyCandidate_applied hu h with
  | counted => exact .inl hm
  | reinforced aliases d =>
    left
    rcases mem_supersededMoments.mp hm with ⟨f', hf', hp, hl, ht⟩ | hset
    · obtain ⟨f, hf, rfl⟩ := mem_reinforced.mp hf'
      refine mem_supersededMoments.mpr (.inl ⟨f, hf, ?_⟩)
      by_cases hid : f.id = d.id
      · rw [if_pos hid] at hp hl ht
        exact ⟨hp, hl, ht⟩
      · rw [if_neg hid] at hp hl ht
        exact ⟨hp, hl, ht⟩
    · exact mem_supersededMoments.mpr (.inr hset)
  | written aliases c' existing row e _ hadj =>
    rcases mem_supersededMoments.mp hm with ⟨f', hf', hp, hl, ht⟩ | ⟨s', hs', hp, hs, hid, ht⟩
    · rcases hadj.mem_apply hf' with ⟨f, hf, rfl, -, hcontent⟩ | ⟨rfl, -, hcontent⟩
      · refine .inl (mem_supersededMoments.mpr (.inl ⟨f, hf, ?_, ?_, ?_⟩))
        · exact (congrArg Scope.projectId (Fact.scope_of_content hcontent)).trans hp
        · rwa [Effect.onFact_supersedesId] at hl
        · exact (congrArg Fact.recordedFrom hcontent : f.content.recordedFrom = _).trans ht
      · right
        rw [← ht, ← hadj.recordedFrom]
        exact (congrArg Fact.recordedFrom hcontent : (e.onRow env row).content.recordedFrom = _)
    · -- A set the candidate opens, extends or dissolves is not resolved.
      left
      rcases hadj.mem_onSets hs' with ⟨hold, -⟩ | ⟨-, rfl⟩ | ⟨_, -, rfl⟩ | ⟨s, -, rfl, rfl⟩ |
        ⟨s, -, _, _, -, rfl⟩
      · exact mem_supersededMoments.mpr (.inr ⟨s', hold, hp, hs, hid, ht⟩)
      · cases hs
      · cases hs
      · obtain ⟨_, -, hopen, -⟩ := hadj.guard
        cases (Db.openConflictSet_some hopen).2.2.1.symm.trans hs
      · cases hs

/-- A job adds moments of its own time only. -/
theorem processJob_moments {extract : Extractor} {eventIds : List EventId}
    {only : Option (List EventId)} {state' : Db × JobResult} (hu : db.UniqueActive)
    (h : processJob env extract db eventIds only = .ok state') :
    MomentsUpTo env.now db state'.1 := by
  refine (processJob_invariant (I := fun db' ↦ db'.UniqueActive ∧ MomentsUpTo env.now db db')
    (C := fun _ _ _ ↦ True) (fun _ _ hI ↦ hI) (fun event db₁ c _ db₂ _ hI _ ha ↦ ?_)
    ⟨hu, fun _ _ _ hm ↦ .inl hm⟩
    (foldMeets_of_forall (fun _ _ _ _ ↦ foldMeets_of_forall (fun _ _ _ ↦ trivial) _ _) _ _) h).2
  refine ⟨applyCandidate_unique hI.1 ha, fun projectId id moment hm ↦ ?_⟩
  rcases applyCandidate_moments hI.1 ha projectId id moment hm with hm | hm
  · exact hI.2 projectId id moment hm
  · exact .inr hm

/-- A resolution adds its own time, to the members of the set, and whatever time the losing members
were recorded at, to the kept one. -/
theorem resolveConflict_moments {conflictId : ConflictId}
    (h : resolveConflict now db projectId conflictId keep = .ok db') {p : String} (hid : id ≠ keep)
    (hm : moment ∈ db'.supersededMoments p id) :
    moment ∈ db.supersededMoments p id ∨ moment = now := by
  obtain ⟨conflict, db₁, -, -, -, hwalk, rfl⟩ := resolveConflict_eq_ok h
  rcases mem_supersededMoments.mp hm with ⟨f', hf', hp, hl, ht⟩ | ⟨s', hs', hp, hs, hmem, ht⟩
  · obtain ⟨f, hf, hr⟩ := exists_resolves hwalk hf'
    cases hr with
    | same => exact .inl (mem_supersededMoments.mpr (.inl ⟨_, hf, hp, hl, ht⟩))
    | kept => exact .inl (mem_supersededMoments.mpr (.inl ⟨_, hf, hp, hl, ht⟩))
    | lost => exact absurd (Option.some.inj hl).symm hid
  · obtain ⟨s, hs₁, rfl⟩ := (Table.mem_update fun s _ ↦ s.resolve_id now).mp hs'
    rw [(resolveMembers_moves hwalk).conflictSets] at hs₁
    split at ht
    · exact .inr (Option.some.inj ht).symm
    · next hne =>
      rw [if_neg hne] at hp hs hmem
      exact .inl (mem_supersededMoments.mpr (.inr ⟨s, hs₁, hp, hs, hmem, ht⟩))

/-- The kept fact is active after a resolution. -/
theorem resolveConflict_kept {conflictId : ConflictId}
    (h : resolveConflict now db projectId conflictId keep = .ok db') (hf : f ∈ db'.facts)
    (hid : f.id = keep) : f.status = .active := by
  obtain ⟨conflict, db₁, -, -, hk, hwalk, rfl⟩ := resolveConflict_eq_ok h
  exact (resolveMembers_status hwalk hf (hid ▸ hk)).mpr hid

/-- The moments of a superseded fact after an operation are those from before, and the time of the
operation. -/
theorem Op.run_moments (hop : op.IsConsolidationOrResolution) (hu : db.UniqueActive)
    (hf : f ∈ (op.run env db).facts) (hs : f.status = .superseded)
    (hm : moment ∈ (op.run env db).supersededMoments projectId f.id) :
    moment ∈ db.supersededMoments projectId f.id ∨ op.time = some moment := by
  rw [Op.run] at hf hm
  cases he : op.exec env db with
  | error => exact .inl (by rwa [he] at hm)
  | ok db' =>
    rw [he] at hf hm
    cases op with
    | capture | serve =>
      cases he
      exact .inl hm
    | consolidate t extract eventIds only =>
      obtain ⟨state, hjob, rfl⟩ := consolidate_eq_ok he
      exact (processJob_moments hu hjob projectId f.id moment hm).imp_right fun h ↦ by rw [h]; rfl
    | resolve t p conflictId keep =>
      have hne : f.id ≠ keep := by
        intro hid
        cases hs.symm.trans (resolveConflict_kept he hf hid)
      exact (resolveConflict_moments he hne hm).imp_right fun h ↦ by rw [h]; rfl
    | forgetFact | forgetSubject | feedback => exact hop.elim

/-! ## The journal -/

/-- A candidate leaves the journal as it is. -/
theorem processJob_traces {extract : Extractor} {eventIds : List EventId}
    {only : Option (List EventId)} {state' : Db × JobResult} (hu : db.UniqueActive)
    (h : processJob env extract db eventIds only = .ok state') :
    state'.1.contextTraces = db.contextTraces := by
  refine (processJob_invariant
    (I := fun db' ↦ db'.UniqueActive ∧ db'.contextTraces = db.contextTraces)
    (C := fun _ _ _ ↦ True) (fun _ _ hI ↦ hI) (fun event db₁ c _ db₂ _ hI _ ha ↦ ?_) ⟨hu, rfl⟩
    (foldMeets_of_forall (fun _ _ _ _ ↦ foldMeets_of_forall (fun _ _ _ ↦ trivial) _ _) _ _) h).2
  refine ⟨applyCandidate_unique hI.1 ha, ?_⟩
  cases applyCandidate_applied hI.1 ha with
  | counted => exact hI.2
  | reinforced => exact hI.2
  | written => exact hI.2

theorem resolveMembers_traces {ids : List FactId}
    (h : ids.foldlM (resolveMember now keep) db = .ok db') :
    db'.contextTraces = db.contextTraces := by
  refine foldlM_preserves (I := fun db' ↦ db'.contextTraces = db.contextTraces)
    (fun db₁ id db₂ hI h ↦ ?_) rfl h
  rcases resolveMember_eq_ok h with rfl | ⟨g, -, rfl⟩
  · exact hI
  · exact hI

/-- The packets an operation serves. -/
def Op.packets : Op → List ContextTrace
  | .serve trace => [trace]
  | _ => []

/-- The journal grows by the packets that are served. -/
theorem Op.run_traces (hop : op.IsConsolidationOrResolution) (hu : db.UniqueActive) :
    (op.run env db).contextTraces = db.contextTraces ++ op.packets := by
  rw [Op.run]
  cases he : op.exec env db with
  | error =>
    cases op with
    | serve => cases he
    | _ => exact (List.append_nil _).symm
  | ok db' =>
    cases op with
    | capture | serve =>
      cases he
      simp [Op.packets]
    | consolidate t extract eventIds only =>
      obtain ⟨state, hjob, rfl⟩ := consolidate_eq_ok he
      exact (processJob_traces hu hjob).trans (List.append_nil _).symm
    | resolve t p conflictId keep =>
      obtain ⟨conflict, db₁, -, -, -, hwalk, rfl⟩ := resolveConflict_eq_ok he
      exact (resolveMembers_traces hwalk).trans (List.append_nil _).symm
    | forgetFact | forgetSubject | feedback => exact hop.elim

theorem runOps_unique (env : Env) (ops : List Op) : (runOps env .empty ops).UniqueActive :=
  have h : Reachable env (fun _ ↦ True) (runOps env .empty ops) := ⟨ops, fun _ _ ↦ trivial, rfl⟩
  h.unique

/-- The journal has the packets that were served. -/
theorem mem_traces_iff (hops : ∀ op ∈ ops, op.IsConsolidationOrResolution) :
    trace ∈ (runOps env .empty ops).contextTraces ↔ .serve trace ∈ ops := by
  induction ops using List.reverseRecOn with
  | nil => exact iff_of_false List.not_mem_nil List.not_mem_nil
  | append_singleton ops op ih =>
    obtain ⟨hops, hop⟩ := List.forall_mem_append.mp hops
    have hpacket : trace ∈ op.packets ↔ .serve trace = op := by
      cases op <;> simp [Op.packets]
    rw [runOps_concat, Op.run_traces (hop op (List.mem_singleton_self op)) (runOps_unique env ops),
      List.mem_append, List.mem_append, ih hops, List.mem_singleton, hpacket]

/-! ## Facts that are superseded -/

/-- The marks stay while candidates are applied. -/
theorem applyCandidate_decidedBy {embedding : Embedding} {result result' : JobResult}
    {t : Timestamp} (hu : db.UniqueActive)
    (h : applyCandidate env db c embedding event result = .ok (db', result'))
    (hd : db.DecidedBy id t) : db'.DecidedBy id t := by
  cases applyCandidate_applied hu h with
  | counted => exact hd
  | reinforced aliases d =>
    refine hd.imp_right ?_
    rintro ⟨g, hg, hl, ht⟩
    refine ⟨_, mem_reinforced.mpr ⟨g, hg, rfl⟩, ?_, ?_⟩
    · split <;> exact hl
    · split <;> exact ht
  | written aliases c' existing row e _ hadj =>
    rcases hd with ⟨s, hs, hr, hid, hat⟩ | ⟨g, hg, hl, ht⟩
    · have hsets : s ∈ e.onSets env event db row.id := by
        have kept {o : ConflictSet} {g : ConflictSet → ConflictSet} (ho : o.status = .open)
            (hom : o ∈ db.conflictSets) (hg : ∀ s, (g s).id = s.id) :
            s ∈ db.conflictSets.update o.id g := by
          refine (Table.mem_update fun s _ ↦ hg s).mpr ⟨s, hs, if_neg fun heq ↦ ?_⟩
          obtain rfl := Table.eq_of_key_eq hs hom heq
          cases ho.symm.trans hr
        have hfresh (ids : List FactId) (kind : ConflictKind) :
            db.conflictSets.Fresh (newConflictSet env db event ids kind) :=
          fun s hs ↦ db.freshConflictId_ne event.id hs
        cases e with
        | hold => exact (Table.mem_insert (hfresh _ _)).mpr (.inl hs)
        | openConflict old => exact (Table.mem_insert (hfresh _ _)).mpr (.inl hs)
        | joinConflict o =>
          obtain ⟨_, -, hopen, -⟩ := hadj.guard
          obtain ⟨hom, -, ho, -⟩ := Db.openConflictSet_some hopen
          exact kept ho hom fun s ↦ s.extend_id _
        | overflow old o other =>
          obtain ⟨_, -, rfl, hfull, -⟩ := hadj.guard
          obtain ⟨hom, -, ho, -⟩ := Db.openConflictSet_some hfull.openSet
          exact kept ho hom fun s ↦ s.dissolve_id _ _
        | accept | replace => exact hs
      exact .inl ⟨s, hsets, hr, hid, hat⟩
    · have hcontent : (e.onFact env event g).recordedFrom = g.recordedFrom :=
        (congrArg Fact.recordedFrom (e.onFact_content g) :
          (e.onFact env event g).content.recordedFrom = _)
      exact .inr ⟨_, (Effect.mem_apply hadj.fresh).mpr (.inl ⟨g, hg, rfl⟩),
        (e.onFact_supersedesId g).trans hl, hcontent.trans_le ht⟩

/-- A candidate supersedes only the fact it replaces. -/
theorem applyCandidate_superseded {result result' : JobResult} (hu : db.UniqueActive)
    (h : applyCandidate env db c (candidateEmbedding env c) event result = .ok (db', result'))
    (hspares : ¬ ReplacesServed env event db c) (hf : f ∈ db'.facts) (hs : f.status = .superseded) :
    (∃ g ∈ db.facts, g.id = f.id ∧ g.status = .superseded) ∨ ¬ db.ServedDecided f.id := by
  cases applyCandidate_applied hu h with
  | counted => exact .inl ⟨f, hf, rfl, hs⟩
  | reinforced aliases d =>
    obtain ⟨g, hg, rfl⟩ := mem_reinforced.mp hf
    refine .inl ⟨g, hg, ?_⟩
    split at hs <;> exact ⟨by split <;> rfl, hs⟩
  | written aliases c' existing row e hm hadj =>
    rcases hadj.mem_apply hf with ⟨g, hg, rfl, hid, -⟩ | ⟨rfl, -, -⟩
    · rcases @Effect.onFact_cases env event e g with heq | ⟨old, rfl, hold, -⟩ | ⟨_, _, _, -, -, heq⟩
      · exact .inl ⟨g, hg, hid, heq ▸ hs⟩
      · obtain ⟨hheld, rfl, hact⟩ := hadj.guard
        refine .inr fun hserved ↦ hspares ⟨c', old, hm, hheld, hact, ?_⟩
        rw [← hold, hid]
        exact hserved
      · rw [heq] at hs
        cases (g.asOccurrence_status env.now).symm.trans hs
    · cases e with
      | accept | replace | overflow => cases hs
      | hold | openConflict | joinConflict => cases hadj.status.symm.trans hs

/-- A job none of whose candidates supersedes a served winner supersedes none. -/
theorem processJob_superseded {extract : Extractor} {eventIds : List EventId}
    {only : Option (List EventId)} {state' : Db × JobResult} (hu : db.UniqueActive)
    (hspares : JobMeets env extract (fun event db c ↦ ¬ ReplacesServed env event db c) db eventIds only)
    (h : processJob env extract db eventIds only = .ok state') (hf : f ∈ state'.1.facts)
    (hs : f.status = .superseded) :
    (∃ g ∈ db.facts, g.id = f.id ∧ g.status = .superseded) ∨ ¬ db.ServedDecided f.id := by
  refine (processJob_invariant (I := fun db' ↦ db'.UniqueActive ∧
    (∀ id, db.ServedDecided id → db'.ServedDecided id) ∧
    ∀ f ∈ db'.facts, f.status = .superseded →
      (∃ g ∈ db.facts, g.id = f.id ∧ g.status = .superseded) ∨ ¬ db.ServedDecided f.id)
    (fun _ _ hI ↦ hI) (fun event db₁ c _ db₂ _ hI hC ha ↦ ?_)
    ⟨hu, fun _ ↦ id, fun f hf hs ↦ .inl ⟨f, hf, rfl, hs⟩⟩ hspares h).2.2 f hf hs
  obtain ⟨hu, hmarks, hfacts⟩ := hI
  refine ⟨applyCandidate_unique hu ha, fun id hid ↦ ?_, fun f hf hs ↦ ?_⟩
  · obtain ⟨trace, htrace, hlists, hd⟩ := hmarks id hid
    refine ⟨trace, ?_, hlists, applyCandidate_decidedBy hu ha hd⟩
    cases applyCandidate_applied hu ha with
    | counted => exact htrace
    | reinforced => exact htrace
    | written => exact htrace
  · rcases applyCandidate_superseded hu ha hC hf hs with ⟨g, hg, hid, hgs⟩ | hnot
    · exact hid ▸ hfacts g hg hgs
    · exact .inr fun hserved ↦ hnot (hmarks f.id hserved)

/-- An operation that spares the served winners supersedes none. -/
theorem Op.run_superseded (hop : op.IsConsolidationOrResolution) (hu : db.UniqueActive)
    (hmeets : op.Meets env (fun env event db c ↦ ¬ ReplacesServed env event db c) db)
    (hspares : ¬ RejectsServed db op) (hf : f ∈ (op.run env db).facts)
    (hs : f.status = .superseded) :
    (∃ g ∈ db.facts, g.id = f.id ∧ g.status = .superseded) ∨ ¬ db.ServedDecided f.id := by
  rw [Op.run] at hf
  cases he : op.exec env db with
  | error => exact .inl ⟨f, by rwa [he] at hf, rfl, hs⟩
  | ok db' =>
    rw [he] at hf
    cases op with
    | capture | serve =>
      cases he
      exact .inl ⟨f, hf, rfl, hs⟩
    | consolidate t extract eventIds only =>
      obtain ⟨state, hjob, rfl⟩ := consolidate_eq_ok he
      exact processJob_superseded hu hmeets hjob hf hs
    | resolve t p conflictId keep =>
      obtain ⟨s, db₁, hc, -, -, hwalk, rfl⟩ := resolveConflict_eq_ok he
      obtain ⟨g, hg, hr⟩ := exists_resolves hwalk hf
      cases hr with
      | same => exact .inl ⟨_, hg, rfl, hs⟩
      | kept => cases hs
      | lost hmem hid hlosing =>
        by_cases hsuperseded : g.status = .superseded
        · exact .inl ⟨g, hg, rfl, hsuperseded⟩
        · exact .inr fun hserved ↦ hspares ⟨s, hc, g, hg, hmem, hid, hsuperseded, hserved⟩
    | forgetFact | forgetSubject | feedback => exact hop.elim

/-! ## The metric along a history -/

/-- A packet that was served clean stays so, and the packet that is served clean now lists no
superseded fact. -/
theorem ServedClean.of_concat (h : ServedClean env (ops ++ [op]) trace) :
    ServedClean env ops trace ∨ (op = .serve trace ∧
      ∀ f ∈ (runOps env .empty ops).facts, f.id ∈ trace.factIds → f.status ≠ .superseded) := by
  obtain ⟨pre, post, heq, hclean⟩ := h
  rcases List.eq_nil_or_concat post with rfl | ⟨post, op', rfl⟩
  · obtain ⟨rfl, hop⟩ := List.append_inj' heq rfl
    exact .inr ⟨List.singleton_inj.mp hop, hclean⟩
  · rw [List.concat_eq_append, ← List.cons_append, ← List.append_assoc] at heq
    obtain ⟨rfl, -⟩ := List.append_inj' heq rfl
    exact .inl ⟨pre, post, rfl, hclean⟩

/-- **Every moment is later.**  When no served winner is superseded, a fact that is superseded now was
superseded after every packet that was served clean and lists it. -/
theorem ServedClean.before_moments (hops : ∀ op ∈ ops, op.IsConsolidationOrResolution)
    (htimes : TimesIncrease ops)
    (hreplaces : RunMeets env (fun env event db c ↦ ¬ ReplacesServed env event db c) .empty ops)
    (hrejects : StepsMeet env (fun db op ↦ ¬ RejectsServed db op) .empty ops)
    (h : ServedClean env ops trace) (hf : f ∈ (runOps env .empty ops).facts)
    (hs : f.status = .superseded) (hid : f.id ∈ trace.factIds)
    (hm : moment ∈ (runOps env .empty ops).supersededMoments trace.scope.projectId f.id) :
    trace.createdAt < moment := by
  induction ops using List.reverseRecOn generalizing f moment with
  | nil =>
    obtain ⟨pre, post, heq, -⟩ := h
    cases pre <;> cases heq
  | append_singleton ops op ih =>
    obtain ⟨hops, hop⟩ := List.forall_mem_append.mp hops
    have hop := hop op (List.mem_singleton_self op)
    rw [TimesIncrease, List.filterMap_append, List.pairwise_append] at htimes
    obtain ⟨htimes, -, hlater⟩ := htimes
    obtain ⟨hreplaces, hreplace⟩ := stepsMeet_concat.mp hreplaces
    obtain ⟨hrejects, hreject⟩ := stepsMeet_concat.mp hrejects
    rw [runOps_concat] at hf hm
    rcases h.of_concat with h | ⟨rfl, hclean⟩
    · have hserved : Op.serve trace ∈ ops := by
        obtain ⟨pre, post, rfl, -⟩ := h
        simp
      rcases Op.run_moments hop (runOps_unique env ops) hf hs hm with hm | htime
      · rcases Op.run_superseded hop (runOps_unique env ops) hreplace hreject hf hs with
          ⟨g, hg, hgid, hgs⟩ | hnot
        · exact ih hops htimes hreplaces hrejects h hg hgs (hgid ▸ hid) (hgid ▸ hm)
        · -- A moment up to the packet would be a mark the fact was served with.
          exact not_le.mp fun hle ↦ hnot ⟨trace, (mem_traces_iff hops).mpr hserved, hid,
            decidedBy_of_moment hm hle⟩
      · exact hlater trace.createdAt (List.mem_filterMap.mpr ⟨_, hserved, rfl⟩) moment
          (List.mem_filterMap.mpr ⟨op, List.mem_singleton_self op, htime⟩)
    · exact absurd hs (hclean f hf hid)

/-- **The leakage metric does not over-count.**  Along a history with increasing times none of whose
operations replaces or rejects a fact that was served after it had won a resolution, every counted
packet contained, when it was served, a fact that was superseded then. -/
theorem leakedPackets_contained_superseded (hops : ∀ op ∈ ops, op.IsConsolidationOrResolution)
    (htimes : TimesIncrease ops)
    (hreplaces : RunMeets env (fun env event db c ↦ ¬ ReplacesServed env event db c) .empty ops)
    (hrejects : StepsMeet env (fun db op ↦ ¬ RejectsServed db op) .empty ops)
    (projectId : String) (subjectId : Option String) (since : Timestamp) :
    ∀ trace ∈ (runOps env .empty ops).leakedPackets projectId subjectId since,
      ∃ pre post, ops = pre ++ .serve trace :: post ∧
        ∃ f ∈ (runOps env .empty pre).facts, f.id ∈ trace.factIds ∧ f.status = .superseded := by
  intro trace htrace
  obtain ⟨hmem, htrace⟩ := List.mem_filter.mp htrace
  obtain ⟨rfl, -, -, id, hid, ⟨f, hf, rfl, hs⟩, moment, hmoment, hle⟩ := of_decide_eq_true htrace
  obtain ⟨pre, post, heq⟩ := List.append_of_mem ((mem_traces_iff hops).mp hmem)
  refine ⟨pre, post, heq, ?_⟩
  by_contra hnone
  have hclean : ServedClean env ops trace :=
    ⟨pre, post, heq, fun g hg hgid hgs ↦ hnone ⟨g, hg, hgid, hgs⟩⟩
  exact absurd hle (not_le.mpr (hclean.before_moments hops htimes hreplaces hrejects hf hs hid
    (mem_of_supersededAt hmoment)))

/-- A packet that lists `Lyon`, served at a time. -/
def Sample.packet (createdAt : Timestamp) : ContextTrace :=
  ⟨0, Sample.scope, createdAt, [⟨1, 0⟩]⟩

theorem Sample.packet_mem {traces : List ContextTrace} {createdAt : Timestamp}
    (h : ∃ trace ∈ traces, trace.id = 0 ∧ trace.scope = scope ∧ trace.createdAt = createdAt ∧
      trace.factIds = [⟨1, 0⟩]) : packet createdAt ∈ traces := by
  obtain ⟨⟨_, _, _, _⟩, htrace, rfl, rfl, rfl, rfl⟩ := h
  exact htrace

/-- `Lyon` is served, wins against `Nice`, is replaced by `Paris`, and is served again. -/
def Sample.servedTwice : List Op :=
  observe (Sample.event 1 .trusted) [create "city" "Lyon"] ++ .serve (packet 2) ::
    observe (Sample.event 3 .trusted) [create "city" "Nice"] ++
      .resolve 4 "project" ⟨3, 0⟩ ⟨1, 0⟩ ::
        observe (Sample.event 5 .trusted) [supersede "city" "Paris"] ++ [.serve (packet 6)]

/-- The packet that was served while `Lyon` was active is not counted, and the later one is. -/
theorem leakedPackets_contained_superseded_servedTwice :
    (runOps .sample .empty Sample.servedTwice).contextTraces.map ContextTrace.createdAt = [2, 6] ∧
      ((runOps .sample .empty Sample.servedTwice).leakedPackets "project" none 0).map
        ContextTrace.createdAt = [6] ∧
      ∀ trace ∈ (runOps .sample .empty Sample.servedTwice).leakedPackets "project" none 0,
        ∃ pre post, Sample.servedTwice = pre ++ .serve trace :: post ∧
          ∃ f ∈ (runOps .sample .empty pre).facts, f.id ∈ trace.factIds ∧
            f.status = .superseded := by
  refine ⟨by decide +kernel, by decide +kernel, leakedPackets_contained_superseded ?_ ?_ ?_ ?_
    "project" none 0⟩
  · simp [Sample.servedTwice, Sample.observe, Op.IsConsolidationOrResolution]
  · show List.Pairwise (· < ·) ([1, 2, 3, 4, 5, 6] : List Int)
    simp
  · decide +kernel
  · decide +kernel

/-- `Lyon` wins against `Nice`, is served, and is replaced by `Paris`. -/
def Sample.servedWinner : List Op :=
  (lyonOrNice ++ [.resolve 3 "project" ⟨2, 0⟩ ⟨1, 0⟩]) ++
    .serve (packet 4) :: observe (Sample.event 5 .trusted) [supersede "city" "Paris"]

/-- The packet is counted, although the fact it lists was active when it was served. -/
theorem active_fact_counted :
    ∃ ops trace, (∀ op ∈ ops, op.IsConsolidationOrResolution) ∧ TimesIncrease ops ∧
      trace ∈ (runOps .sample .empty ops).leakedPackets "project" none 0 ∧
      ∀ pre post, ops = pre ++ .serve trace :: post →
        ∀ f ∈ (runOps .sample .empty pre).facts, f.id ∈ trace.factIds → f.status = .active := by
  refine ⟨Sample.servedWinner, Sample.packet 4, ?_, ?_, Sample.packet_mem (by decide +kernel),
    fun pre post heq ↦ ?_⟩
  · simp [Sample.servedWinner, Sample.lyonOrNice, Sample.observe, Op.IsConsolidationOrResolution]
  · show List.Pairwise (· < ·) ([1, 2, 3, 4, 5] : List Int)
    simp
  · obtain ⟨rfl, -⟩ := (List.append_cons_inj_of_notMem
      (by simp [Sample.lyonOrNice, Sample.observe]) (by simp [Sample.observe])).mp heq
    decide +kernel

end Haki
