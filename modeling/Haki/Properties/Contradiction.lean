import Haki.Sample
import Haki.Properties.OpenSets

/-!
# The members of an open contradiction

A contradiction opens with one active member and one candidate.  Resolution
closes the set, and so does an overflow; a supersede takes the active member
out of service and leaves the set open.  In every run in which no supersede
replaces a member of an open set, the open contradictions keep their shape.
-/

namespace Haki

open Data Control

variable {env : Env} {db db' : Db} {event : Event} {c c' : Candidate} {existing : Option Fact}
  {row : Fact} {e : Effect} {s : ConflictSet}

/-- An open set as it was opened: a contradiction of an active fact by a candidate, or a single
candidate under quarantine. -/
def ConflictSet.Stands (db : Db) (s : ConflictSet) : Prop :=
  match s.kind with
  | .contradiction => ∃ x ∈ db.facts, ∃ y ∈ db.facts, s.factIds = [x.id, y.id] ∧
      x.status = .active ∧ y.status = .candidate
  | .quarantine => ∃ x ∈ db.facts, s.factIds = [x.id] ∧ x.status = .candidate

/-- Every open set is as it was opened. -/
def Db.OpenSetsStand (db : Db) : Prop :=
  ∀ s ∈ db.conflictSets, s.status = .open → s.Stands db

/-- The candidate replaces a member of an open set. -/
def ReplacesMember (env : Env) (event : Event) (db : Db) (c : Candidate) : Prop :=
  ∃ c' old, (matchCandidate env db c (candidateEmbedding env c) event).1 = .against c' (some old) ∧
    ¬ HeldBack event (some old) ∧ c'.action = .supersede ∧
    ∃ s ∈ db.conflictSets, s.status = .open ∧ old.id ∈ s.factIds

instance (env : Env) (event : Event) (db : Db) (c : Candidate) :
    Decidable (ReplacesMember env event db c) :=
  Match.decidableAgainst _ _

namespace ConflictSet.Stands

/-- A set stands as long as its members keep their status. -/
theorem mono (h : s.Stands db) (hmem : ∀ f ∈ db.facts, f.id ∈ s.factIds →
    ∃ f' ∈ db'.facts, f'.id = f.id ∧ f'.status = f.status) : s.Stands db' := by
  rw [Stands] at h ⊢
  cases hk : s.kind with
  | contradiction =>
    rw [hk] at h
    obtain ⟨x, hx, y, hy, hids, hactive, hcandidate⟩ := h
    obtain ⟨x', hx', hidx, hsx⟩ := hmem x hx (by simp [hids])
    obtain ⟨y', hy', hidy, hsy⟩ := hmem y hy (by simp [hids])
    exact ⟨x', hx', y', hy', by rw [hidx, hidy, hids], hsx.trans hactive, hsy.trans hcandidate⟩
  | quarantine =>
    rw [hk] at h
    obtain ⟨x, hx, hids, hcandidate⟩ := h
    obtain ⟨x', hx', hidx, hsx⟩ := hmem x hx (by simp [hids])
    exact ⟨x', hx', by rw [hidx, hids], hsx.trans hcandidate⟩

/-- A standing set with an active member has two members. -/
theorem length_of_active (h : s.Stands db) {f : Fact} (hf : f ∈ db.facts) (ha : f.status = .active)
    (hid : f.id ∈ s.factIds) : s.factIds.length = conflictSetMaxMembers := by
  rw [Stands] at h
  cases hk : s.kind with
  | contradiction =>
    rw [hk] at h
    obtain ⟨x, -, y, -, hids, -⟩ := h
    rw [hids]
    rfl
  | quarantine =>
    rw [hk] at h
    obtain ⟨x, hx, hids, hcandidate⟩ := h
    rw [hids, List.mem_singleton] at hid
    rw [Db.eq_of_id_eq hf hx hid, hcandidate] at ha
    cases ha

end ConflictSet.Stands

/-- An effect that replaces no member of an open set keeps the open sets standing. -/
theorem Adjudicated.openSetsStand (hadj : Adjudicated env db event c c' existing row e)
    (hopen : db.OpenSets) (h : db.OpenSetsStand)
    (hkeep : ∀ old, e = .replace old → ∀ s ∈ db.conflictSets, s.status = .open →
      old.id ∉ s.factIds) : (e.apply env event db row).OpenSetsStand := by
  intro s' hs' ho
  have hrow : e.onRow env row ∈ (e.apply env event db row).facts :=
    (Effect.mem_apply hadj.fresh).mpr (.inr rfl)
  rcases hopen.open_onSets hadj hs' ho with
    ⟨s, hs, hos, -, -, -, hne, rfl | ⟨rfl, rfl⟩⟩ | ⟨rfl, rfl⟩ | ⟨old, rfl, hx, rfl, -⟩
  · refine (h s' hs hos).mono fun f hf hid ↦ ⟨e.onFact env event f,
      (Effect.mem_apply hadj.fresh).mpr (.inl ⟨f, hf, rfl⟩), e.onFact_id env event f, ?_⟩
    rcases hopen.onFact_of_open hadj hs hos hid hne with he | ⟨old, rfl, hold, -⟩
    · rw [he]
    · exact absurd (hold ▸ hid) (hkeep old rfl s' hs hos)
  · -- A set with room for a third member does not stand.
    obtain ⟨old, hcontra, hset, hroom⟩ := hadj.guard
    obtain ⟨hold, -, hact⟩ := hadj.active old hcontra.matched
    have hfull := (h s hs hos).length_of_active hold hact (Db.openConflictSet_some hset).2.2.2
    exact absurd hfull hroom.ne
  · exact ⟨row, hrow, rfl, hadj.status⟩
  · obtain ⟨hold, -, hact⟩ := hadj.active old hx
    exact ⟨old, (Effect.mem_apply hadj.fresh).mpr (.inl ⟨old, hold, rfl⟩), row, hrow, rfl, hact,
      hadj.status⟩

/-- Open sets stand in every run of consolidations and resolutions that replaces no member. -/
theorem openSetsStand_invariant (env : Env) :
    Invariant env Op.IsConsolidationOrResolution
      (fun env event db c ↦ ¬ ReplacesMember env event db c)
      fun db ↦ db.OpenSets ∧ db.OpenSetsStand where
  empty := ⟨(openSets_invariant env Op.IsConsolidationOrResolution).empty, by rintro _ ⟨⟩⟩
  frame db events traces h := ⟨⟨h.1.scope, h.1.apart, h.1.served⟩, h.2⟩
  candidate now event db c result db' result' hu h hC ha := by
    refine ⟨applyCandidate_openSets hu h.1 ha, ?_⟩
    cases applyCandidate_applied hu ha with
    | counted => exact h.2
    | reinforced aliases d =>
      exact fun s hs ho ↦ (h.2 s hs ho).mono fun f hf _ ↦
        ⟨_, mem_reinforced.mpr ⟨f, hf, rfl⟩, by split <;> exact ⟨rfl, rfl⟩⟩
    | written aliases c' existing row e hm hadj =>
      refine hadj.openSetsStand h.1 h.2 ?_
      rintro old rfl s hs ho hid
      obtain ⟨hheld, rfl, hact⟩ := hadj.guard
      exact hC ⟨c', old, hm, hheld, hact, s, hs, ho, hid⟩
  other db op db' hop hallowed hu h he := by
    cases op with
    | resolve now projectId id keep =>
      obtain ⟨conflict, db₁, hc, ho, -, hm, rfl⟩ := resolveConflict_eq_ok he
      obtain ⟨hs, rfl⟩ := Table.get?_eq_some_iff.mp hc
      have hmoves := resolveMembers_moves hm
      refine ⟨h.1.resolve hs ho hmoves, fun t ht hto ↦ ?_⟩
      obtain ⟨ht, hsame⟩ := h.1.open_resolve hs ho hmoves ht hto
      exact (h.2 t ht hto).mono fun f hf hid ↦
        ⟨f, Db.mem_of_fact? ((hsame f.id hid).trans (Db.fact?_of_mem hf)), rfl, rfl⟩
    | capture | consolidate | serve => exact absurd trivial hop
    | forgetFact | forgetSubject | feedback => exact hallowed.elim

/-- **Open contradictions.**  In every run of consolidations and resolutions in which no candidate
replaces a member of an open set, an open contradiction has exactly one active member, every other
member is a candidate, and no active fact is in two open sets. -/
theorem openContradictions_stand (env : Env) (ops : List Op)
    (hops : ∀ op ∈ ops, op.IsConsolidationOrResolution)
    (hC : RunMeets env (fun env event db c ↦ ¬ ReplacesMember env event db c) .empty ops) :
    (∀ s ∈ (runOps env .empty ops).conflictSets, s.status = .open → s.kind = .contradiction →
      ∃ x ∈ (runOps env .empty ops).facts, x.id ∈ s.factIds ∧ x.status = .active ∧
        ∀ id ∈ s.factIds, id ≠ x.id →
          ∃ y ∈ (runOps env .empty ops).facts, y.id = id ∧ y.status = .candidate) ∧
    ∀ f ∈ (runOps env .empty ops).facts, f.status = .active →
      ∀ s ∈ (runOps env .empty ops).conflictSets, ∀ t ∈ (runOps env .empty ops).conflictSets,
        s.status = .open → t.status = .open → f.id ∈ s.factIds → f.id ∈ t.factIds → s = t := by
  obtain ⟨-, hopen, hstand⟩ := (openSetsStand_invariant env).run hops hC
  refine ⟨fun s hs ho hk ↦ ?_, fun f _ _ s hs t ht ho hto ↦ hopen.apart s hs t ht ho hto f.id⟩
  have h := hstand s hs ho
  rw [ConflictSet.Stands, hk] at h
  obtain ⟨x, hx, y, hy, hids, hactive, hcandidate⟩ := h
  refine ⟨x, hx, by simp [hids], hactive, fun id hid hne ↦ ⟨y, hy, ?_, hcandidate⟩⟩
  rw [hids] at hid
  exact ((List.mem_pair.mp hid).resolve_left hne).symm

/-- The open contradiction of `Lyon` and `Nice`. -/
theorem openContradictions_stand_lyonOrNice :
    ∃ s ∈ (runOps .sample .empty Sample.lyonOrNice).conflictSets, s.status = .open ∧
      s.kind = .contradiction ∧ ∃ x ∈ (runOps .sample .empty Sample.lyonOrNice).facts,
        x.id ∈ s.factIds ∧ x.status = .active ∧ ∀ id ∈ s.factIds, id ≠ x.id →
          ∃ y ∈ (runOps .sample .empty Sample.lyonOrNice).facts, y.id = id ∧
            y.status = .candidate := by
  have hops : ∀ op ∈ Sample.lyonOrNice, op.IsConsolidationOrResolution := by
    simp [Sample.lyonOrNice, Sample.observe, Op.IsConsolidationOrResolution]
  have hset : ∃ s ∈ (runOps .sample .empty Sample.lyonOrNice).conflictSets, s.status = .open ∧
      s.kind = .contradiction := by decide +kernel
  obtain ⟨s, hs, ho, hk⟩ := hset
  exact ⟨s, hs, ho, hk,
    (openContradictions_stand .sample Sample.lyonOrNice hops (by decide +kernel)).1 s hs ho hk⟩

/-- A supersede takes the active member out of an open contradiction and leaves it open. -/
theorem openContradiction_without_active :
    ∃ db, Reachable .sample Op.IsConsolidation db ∧ ∃ s ∈ db.conflictSets, s.status = .open ∧
      s.kind = .contradiction ∧ ∀ f ∈ db.facts, f.id ∈ s.factIds → f.status ≠ .active := by
  refine ⟨runOps .sample .empty (Sample.lyonOrNice ++
      Sample.observe (Sample.event 3 .trusted) [Sample.supersede "city" "Paris"]),
    ⟨_, fun op hop ↦ ?_, rfl⟩, ?_⟩
  · rcases List.mem_append.mp hop with hop | hop
    · exact Sample.lyonOrNice_isConsolidation op hop
    · exact Sample.observe_isConsolidation op hop
  · decide +kernel

end Haki
