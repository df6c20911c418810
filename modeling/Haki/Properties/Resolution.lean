import Haki.Sample

/-!
# When a human resolution is honoured

Resolving a set walks its members in order and flushes every move.  It fails on
a member that is deleted or gone, and on a kept fact whose slot is held by an
active fact the walk has not superseded yet; it succeeds without effect on what
is served when the kept fact is no longer valid.
`resolveConflict_honoured_iff` says that nothing else can go wrong.
-/

namespace Haki

open Data Control

variable {now : Timestamp} {db db' : Db} {keep id : FactId} {ids : List FactId} {f : Fact}
  {s : ConflictSet}

/-- Resolving the set in favour of `keep` succeeds; the kept fact is then active and passes the
validity filter of the context, no other member is active, and the set is resolved. -/
def Honoured (now : Timestamp) (db : Db) (s : ConflictSet) (keep : FactId) : Prop :=
  ∃ db', resolveConflict now db s.scope.projectId s.id keep = .ok db' ∧
    (∃ f ∈ db'.facts, f.id = keep ∧ f.status = .active ∧ ∀ t ∈ f.validTo, now < t) ∧
    (∀ f ∈ db'.facts, f.id ∈ s.factIds → f.id ≠ keep → f.status ≠ .active) ∧
    ∃ s' ∈ db'.conflictSets, s'.id = s.id ∧ s'.status = .resolved

/-- An active state fact outside `ids` has the slot of `f`. -/
def Db.SlotHeld (db : Db) (f : Fact) (ids : List FactId) : Prop :=
  f.memoryForm = .state ∧ ∃ g ∈ db.facts, g.Current ∧ g.SameSlot f ∧ g.id ∉ ids

/-- The members before the kept one, in the order of the walk. -/
def before (keep : FactId) (ids : List FactId) : List FactId := ids.takeWhile (· ≠ keep)

/-- The condition under which the set can be resolved in favour of the fact `f`. -/
structure Resolvable (now : Timestamp) (db : Db) (s : ConflictSet) (f : Fact) : Prop where
  /-- Every other member is there, and not deleted. -/
  members : ∀ id ∈ s.factIds, id ≠ f.id → ∃ g ∈ db.facts, g.id = id ∧ g.status ≠ .deleted
  /-- The slot is free once the members before the kept one are superseded. -/
  slot : f.status = .active ∨ ¬ db.SlotHeld f (before f.id s.factIds)
  /-- The fact is still valid. -/
  valid : ∀ t ∈ f.validTo, now < t

/-! ## One member -/

/-- A member after the walk, when another one is kept. -/
def Fact.loses (f : Fact) (keep : FactId) (now : Timestamp) : Fact :=
  if f.status = .superseded ∨ f.status = .disabled then f else f.lostTo keep now

theorem Fact.loses_id (f : Fact) (keep : FactId) (now : Timestamp) : (f.loses keep now).id = f.id := by
  rw [Fact.loses]
  split <;> rfl

theorem Fact.loses_status (f : Fact) (keep : FactId) (now : Timestamp) :
    (f.loses keep now).status = .superseded ∨ (f.loses keep now).status = .disabled := by
  rw [Fact.loses]
  split
  · assumption
  · exact .inl rfl

/-- Superseding a member that is not deleted succeeds. -/
theorem loseMember_eq (hu : db.UniqueActive) (hf : f ∈ db.facts) (hd : f.status ≠ .deleted) :
    loseMember now db keep f.id = .ok (db.updateFact f.id (·.loses keep now)) := by
  have heq : db.updateFact f.id (·.loses keep now) =
      if f.status = .superseded ∨ f.status = .disabled then db
      else db.updateFact f.id (·.lostTo keep now) := by
    split
    · next hs =>
      refine Db.updateFact_eq_self fun g hg hid ↦ ?_
      exact if_pos (Db.eq_of_id_eq hg hf hid ▸ hs)
    · next hs =>
      refine congrArg (fun t ↦ { db with facts := t }) (Table.modify_congr fun g hg ↦ ?_)
      split
      · next hid => exact if_neg (Db.eq_of_id_eq hg hf hid ▸ hs)
      · rfl
  have moved (hn : ¬ (f.status = .superseded ∨ f.status = .disabled)) :
      (transitionFactStatus now db f.id .superseded >>= fun db ↦
        pure (db.updateFact f.id fun f ↦ { f with supersedesId := some keep })) =
        .ok (db.updateFact f.id (·.lostTo keep now)) := by
    have ht : FactStatus.superseded ∈ allowedTransitions f.status := by
      cases hs : f.status <;> simp_all [allowedTransitions]
    rw [transitionFactStatus_eq (Db.fact?_of_mem hf) ht, flush_of_unique, ok_bind]
    · exact congrArg Except.ok
        (Db.updateFact_updateFact_self (Fact.moveTo_id · _ now) fun _ ↦ rfl)
    · exact hu.updateFact (Fact.moveTo_id · _ now) fun _ _ _ h ↦ by cases h.1
  rw [heq, loseMember, getFact_eq_ok.mpr (Db.fact?_of_mem hf), ok_bind]
  cases hs : f.status with
  | superseded | disabled => simp; rfl
  | deleted => exact absurd hs hd
  | candidate | active | disputed => simpa [hs] using moved (by simp [hs])

/-- Activating the kept member is a flush, unless it is active already. -/
theorem keepMember_eq (hf : db.fact? id = some f) (hd : f.status ≠ .disabled)
    (hdel : f.status ≠ .deleted) :
    keepMember now db id =
      if f.status = .active then .ok db else flush (db.updateFact id (·.moveTo .active now)) := by
  rw [keepMember, getFact_eq_ok.mpr hf, ok_bind]
  have ht (ha : f.status ≠ .active) : FactStatus.active ∈ allowedTransitions f.status := by
    cases hs : f.status <;> simp_all [allowedTransitions]
  cases hs : f.status with
  | disabled => exact absurd hs hd
  | deleted => exact absurd hs hdel
  | active => simp; rfl
  | candidate | superseded | disputed =>
    simpa using transitionFactStatus_eq hf (ht (by simp [hs]))

/-- Activating a fact meets the index exactly when no active state fact has its slot. -/
theorem Db.UniqueActive.activate_iff (hu : db.UniqueActive) (hf : db.fact? id = some f)
    (ha : f.status ≠ .active) :
    (db.updateFact id (·.moveTo .active now)).UniqueActive ↔
      ¬ (f.memoryForm = .state ∧ ∃ g ∈ db.facts, g.Current ∧ g.SameSlot f) := by
  obtain ⟨hmem, rfl⟩ := Db.fact?_eq_some_iff.mp hf
  have hid := (Fact.moveTo_id · .active now)
  have other {g : Fact} (hg : g ∈ db.facts) (hc : g.Current) : g.id ≠ f.id := fun h ↦
    ha (Db.eq_of_id_eq hg hmem h ▸ hc.1)
  constructor
  · rintro hu' ⟨hform, g, hg, hc, hs⟩
    refine other hg hc (hu' g ?_ hc (f.moveTo .active now) ?_ ⟨rfl, hform⟩ hs)
    · exact (Db.mem_updateFact hid).mpr ⟨g, hg, if_neg (other hg hc)⟩
    · exact (Db.mem_updateFact hid).mpr ⟨f, hmem, if_pos rfl⟩
  · intro hn f₁ h₁ c₁ f₂ h₂ c₂ hs
    obtain ⟨g₁, hg₁, rfl⟩ := (Db.mem_updateFact hid).mp h₁
    obtain ⟨g₂, hg₂, rfl⟩ := (Db.mem_updateFact hid).mp h₂
    by_cases hi₁ : g₁.id = f.id <;> by_cases hi₂ : g₂.id = f.id
    · simp only [if_pos hi₁, if_pos hi₂, Fact.moveTo_id]
      exact hi₁.trans hi₂.symm
    · obtain rfl := Db.eq_of_id_eq hg₁ hmem hi₁
      rw [if_pos rfl] at c₁ hs
      rw [if_neg hi₂] at c₂ hs
      exact absurd ⟨c₁.2, g₂, hg₂, c₂, hs.symm⟩ hn
    · obtain rfl := Db.eq_of_id_eq hg₂ hmem hi₂
      rw [if_neg hi₁] at c₁ hs
      rw [if_pos rfl] at c₂ hs
      exact absurd ⟨c₂.2, g₁, hg₁, c₁, hs⟩ hn
    · rw [if_neg hi₁] at c₁ hs ⊢
      rw [if_neg hi₂] at c₂ hs ⊢
      exact hu g₁ hg₁ c₁ g₂ hg₂ c₂ hs

/-! ## The walk -/

/-- Superseding a member keeps the index. -/
theorem Db.UniqueActive.lose (hu : db.UniqueActive) :
    (db.updateFact id (·.loses keep now)).UniqueActive := by
  refine hu.updateFact (Fact.loses_id · keep now) fun f _ _ hc ↦ ?_
  rcases f.loses_status keep now with h | h <;> cases h.symm.trans hc.1

theorem fact?_lose_of_ne (h : keep ≠ id) :
    (db.updateFact id (·.loses keep now)).fact? keep = db.fact? keep := by
  rw [Db.fact?_updateFact (Fact.loses_id · keep now), if_neg h]

/-- A slot is held after a member lost exactly when another fact held it before. -/
theorem slotHeld_lose_iff :
    (db.updateFact id (·.loses keep now)).SlotHeld f ids ↔ db.SlotHeld f (id :: ids) := by
  have hloses := (Fact.loses_id · keep now)
  refine and_congr_right fun _ ↦ ⟨?_, ?_⟩
  · rintro ⟨g', hg', hc, hs, hid⟩
    obtain ⟨g, hg, rfl⟩ := (Db.mem_updateFact hloses).mp hg'
    by_cases h : g.id = id
    · rw [if_pos h] at hc
      rcases g.loses_status keep now with hs | hs <;> cases hs.symm.trans hc.1
    · rw [if_neg h] at hc hs hid
      exact ⟨g, hg, hc, hs, by simp [h, hid]⟩
  · rintro ⟨g, hg, hc, hs, hid⟩
    obtain ⟨hne, hid⟩ := not_or.mp (List.mem_cons.not.mp hid)
    exact ⟨g, (Db.mem_updateFact hloses).mpr ⟨g, hg, if_neg hne⟩, hc, hs, hid⟩

theorem before_cons_self : before keep (keep :: ids) = [] := by simp [before]

theorem before_cons_of_ne (h : id ≠ keep) : before keep (id :: ids) = id :: before keep ids := by
  simp [before, h]

/-- A member that is there and not deleted stays so when one fact is rewritten to a status other
than deleted. -/
theorem exists_of_updateFact {g : Fact → Fact} (hg : ∀ f, (g f).id = f.id)
    (hdel : ∀ f ∈ db.facts, f.id = id → (g f).status ≠ .deleted) {i : FactId}
    (h : ∃ f ∈ db.facts, f.id = i ∧ f.status ≠ .deleted) :
    ∃ f ∈ (db.updateFact id g).facts, f.id = i ∧ f.status ≠ .deleted := by
  obtain ⟨f, hf, hid, hs⟩ := h
  refine ⟨_, (Db.mem_updateFact hg).mpr ⟨f, hf, rfl⟩, ?_⟩
  split
  · next h => exact ⟨(hg f).trans hid, hdel f hf h⟩
  · exact ⟨hid, hs⟩

theorem loses_not_deleted (f : Fact) : (f.loses keep now).status ≠ .deleted := by
  rcases f.loses_status keep now with h | h <;> rw [h] <;> decide

/-- The walk succeeds when no other member is deleted or gone, and the slot gets free. -/
theorem resolveMembers_succeeds (hu : db.UniqueActive) (hf : db.fact? keep = some f)
    (hd : f.status ≠ .disabled) (hdel : f.status ≠ .deleted)
    (hmembers : ∀ id ∈ ids, id ≠ keep → ∃ g ∈ db.facts, g.id = id ∧ g.status ≠ .deleted)
    (hslot : f.status = .active ∨ ¬ db.SlotHeld f (before keep ids)) :
    ∃ db', ids.foldlM (resolveMember now keep) db = .ok db' := by
  induction ids generalizing db f with
  | nil => exact ⟨db, rfl⟩
  | cons id ids ih =>
    rw [List.forall_mem_cons] at hmembers
    obtain ⟨hmember, hmembers⟩ := hmembers
    by_cases hid : id = keep
    · subst hid
      rw [List.foldlM_cons, resolveMember, if_pos rfl, keepMember_eq hf hd hdel]
      by_cases ha : f.status = .active
      · rw [if_pos ha, ok_bind]
        exact ih hu hf hd hdel hmembers (.inl ha)
      · -- Nothing before the kept fact is left to be superseded.
        have hslot := hslot.resolve_left ha
        rw [before_cons_self] at hslot
        have hu' : (db.updateFact id (·.moveTo .active now)).UniqueActive := by
          refine (hu.activate_iff hf ha).mpr ?_
          rintro ⟨hform, g, hg, hc, hs⟩
          exact hslot ⟨hform, g, hg, hc, hs, List.not_mem_nil⟩
        rw [if_neg ha, flush_of_unique hu', ok_bind]
        refine ih hu' (f := f.moveTo .active now) ?_ (by simp) (by simp) (fun i hi hne ↦ ?_)
          (.inl rfl)
        · rw [Db.fact?_updateFact (Fact.moveTo_id · _ now), if_pos rfl, hf]
          rfl
        · exact exists_of_updateFact (Fact.moveTo_id · _ now) (by simp) (hmembers i hi hne)
    · obtain ⟨g, hg, rfl, hgd⟩ := hmember hid
      rw [List.foldlM_cons, resolveMember, if_neg hid, loseMember_eq hu hg hgd, ok_bind]
      refine ih hu.lose ?_ hd hdel (fun i hi hne ↦ ?_) (hslot.imp_right fun h ↦ ?_)
      · rw [fact?_lose_of_ne (Ne.symm hid), hf]
      · exact exists_of_updateFact (Fact.loses_id · keep now)
          (fun f _ _ ↦ loses_not_deleted f) (hmembers i hi hne)
      · rwa [slotHeld_lose_iff, ← before_cons_of_ne hid]

/-- A member of a walk that succeeded is there, and not deleted, unless it is the kept one. -/
theorem resolveMember_exists (h : resolveMember now keep db id = .ok db') (hne : id ≠ keep) :
    ∃ g ∈ db.facts, g.id = id ∧ g.status ≠ .deleted := by
  rw [resolveMember, if_neg hne] at h
  obtain ⟨g, hg, ⟨hs | hs, -⟩ | ⟨hs, -⟩⟩ := loseMember_eq_ok h
  · exact ⟨g, Db.mem_of_fact? hg, Db.id_of_fact? hg, by simp [hs]⟩
  · exact ⟨g, Db.mem_of_fact? hg, Db.id_of_fact? hg, by simp [hs]⟩
  · exact ⟨g, Db.mem_of_fact? hg, Db.id_of_fact? hg, hs.2.2⟩

theorem resolveMembers_exist (h : ids.foldlM (resolveMember now keep) db = .ok db') :
    ∀ id ∈ ids, id ≠ keep → ∃ g ∈ db.facts, g.id = id ∧ g.status ≠ .deleted := by
  induction ids generalizing db with
  | nil => rintro _ ⟨⟩
  | cons id ids ih =>
    obtain ⟨db₁, h₁, h⟩ := foldlM_cons_eq_ok.mp h
    rintro i hi hne
    by_cases hii : i = id
    · exact hii ▸ resolveMember_exists h₁ (hii ▸ hne)
    · obtain ⟨g, hg, rfl, hs⟩ := ih h i ((List.mem_cons.mp hi).resolve_left hii) hne
      -- The first move rewrites another fact.
      rcases resolveMember_eq_ok h₁ with rfl | ⟨k, hk, rfl⟩
      · exact ⟨g, hg, rfl, hs⟩
      · obtain ⟨g₀, hg₀, rfl⟩ := (Db.mem_updateFact fun f ↦ (hk f).1).mp hg
        split at hii
        · next hid => exact absurd ((hk g₀).1.trans hid) hii
        · next hid => exact ⟨g₀, hg₀, by rw [if_neg hid], by rwa [if_neg hid] at hs⟩

/-- In a walk that succeeded, the kept fact is active or its slot got free in time. -/
theorem resolveMembers_slot (hu : db.UniqueActive) (hf : db.fact? keep = some f) (hk : keep ∈ ids)
    (h : ids.foldlM (resolveMember now keep) db = .ok db') :
    f.status = .active ∨ ¬ db.SlotHeld f (before keep ids) := by
  induction ids generalizing db with
  | nil => cases hk
  | cons id ids ih =>
    obtain ⟨db₁, h₁, h⟩ := foldlM_cons_eq_ok.mp h
    by_cases hid : id = keep
    · subst hid
      rw [before_cons_self]
      rw [resolveMember, if_pos rfl] at h₁
      obtain ⟨f', hf', ⟨ha, -⟩ | ⟨ha, -, -, rfl, hu'⟩⟩ := keepMember_eq_ok h₁ <;>
        obtain rfl := Option.some.inj (hf.symm.trans hf')
      · exact .inl ha
      · refine .inr ?_
        rintro ⟨hform, g, hg, hc, hs, -⟩
        exact (hu.activate_iff hf ha).mp hu' ⟨hform, g, hg, hc, hs⟩
    · rw [before_cons_of_ne hid]
      obtain ⟨g, hg, rfl, hgd⟩ := resolveMember_exists h₁ hid
      rw [resolveMember, if_neg hid, loseMember_eq hu hg hgd] at h₁
      obtain rfl := Except.ok.inj h₁
      have hslot := ih hu.lose ((fact?_lose_of_ne (Ne.symm hid)).trans hf)
        ((List.mem_cons.mp hk).resolve_left (Ne.symm hid)) h
      exact hslot.imp_right fun h hheld ↦ h (slotHeld_lose_iff.mpr hheld)

/-- After its move, the kept member is active, and any other member is not. -/
theorem resolveMember_status (h : resolveMember now keep db id = .ok db') {f' : Fact}
    (hf' : f' ∈ db'.facts) (hid : f'.id = id) : f'.status = .active ↔ id = keep := by
  rw [resolveMember] at h
  split at h
  · next hk =>
    refine iff_of_true ?_ hk
    obtain ⟨f, hf, ⟨ha, rfl⟩ | ⟨-, -, -, rfl, -⟩⟩ := keepMember_eq_ok h
    · rw [Db.eq_of_id_eq hf' (Db.mem_of_fact? hf) (hid.trans (Db.id_of_fact? hf).symm), ha]
    · obtain ⟨g, -, rfl⟩ := (Db.mem_updateFact (Fact.moveTo_id · _ now)).mp hf'
      split at hid
      · next hg => rw [if_pos hg]; rfl
      · next hg => exact absurd hid hg
  · next hk =>
    refine iff_of_false ?_ hk
    obtain ⟨f, hf, ⟨hs, rfl⟩ | ⟨-, rfl, -⟩⟩ := loseMember_eq_ok h
    · rw [Db.eq_of_id_eq hf' (Db.mem_of_fact? hf) (hid.trans (Db.id_of_fact? hf).symm)]
      rcases hs with hs | hs <;> simp [hs]
    · obtain ⟨g, -, rfl⟩ := (Db.mem_updateFact (Fact.lostTo_id · keep now)).mp hf'
      split at hid
      · next hg => rw [if_pos hg]; simp [Fact.lostTo]
      · next hg => exact absurd hid hg

/-- After the walk, the kept member is active, and no other member is. -/
theorem resolveMembers_status (h : ids.foldlM (resolveMember now keep) db = .ok db') {f' : Fact}
    (hf' : f' ∈ db'.facts) (hid : f'.id ∈ ids) : f'.status = .active ↔ f'.id = keep := by
  induction ids generalizing db with
  | nil => cases hid
  | cons id ids ih =>
    obtain ⟨db₁, h₁, h⟩ := foldlM_cons_eq_ok.mp h
    by_cases hmem : f'.id ∈ ids
    · exact ih h hmem
    · -- The rest of the walk does not move this member.
      have hid := (List.mem_cons.mp hid).resolve_right hmem
      have hf₁ := ((resolveMembers_moves h).other f'.id hmem).symm.trans (Db.fact?_of_mem hf')
      rw [resolveMember_status h₁ (Db.mem_of_fact? hf₁) hid, hid]

/-! ## The resolution -/

/-- Resolving an open set in favour of a member is its walk. -/
theorem resolveConflict_eq (hs : s ∈ db.conflictSets) (ho : s.status = .open)
    (hk : keep ∈ s.factIds) :
    resolveConflict now db s.scope.projectId s.id keep =
      s.factIds.foldlM (resolveMember now keep) db >>= fun db' ↦
        .ok (db'.updateConflictSet s.id (·.resolve now)) := by
  have hget : db.conflictSet? s.id = some s := Table.get?_eq_some_iff.mpr ⟨hs, rfl⟩
  simp [resolveConflict, hget, ho, hk]
  rfl

/-- **Human resolution.**  In every ledger that meets the index, resolving an open set in favour of
a member that is neither disabled nor deleted is honoured exactly when no other member is deleted
or gone, the member's slot is free or gets free in time, and it is still valid. -/
theorem resolveConflict_honoured_iff (hu : db.UniqueActive) (hs : s ∈ db.conflictSets)
    (ho : s.status = .open) (hf : f ∈ db.facts) (hk : f.id ∈ s.factIds) (hd : f.status ≠ .disabled)
    (hdel : f.status ≠ .deleted) : Honoured now db s f.id ↔ Resolvable now db s f := by
  have hget := Db.fact?_of_mem hf
  rw [Honoured, resolveConflict_eq hs ho hk]
  constructor
  · rintro ⟨db', h, ⟨f', hf', hid, -, hvalid⟩, -, -⟩
    obtain ⟨db₁, hwalk, h⟩ := bind_eq_ok.mp h
    obtain rfl := Except.ok.inj h
    obtain ⟨g, hg, hgid, -, hgvalid⟩ := (resolveMembers_moves hwalk).same f' hf'
    obtain rfl := Db.eq_of_id_eq hg hf (hgid.trans hid)
    exact ⟨resolveMembers_exist hwalk, resolveMembers_slot hu hget hk hwalk, hgvalid ▸ hvalid⟩
  · rintro ⟨hmembers, hslot, hvalid⟩
    obtain ⟨db', hwalk⟩ := resolveMembers_succeeds hu hget hd hdel hmembers hslot
    have hmoves := resolveMembers_moves hwalk
    refine ⟨_, by rw [hwalk, ok_bind], ?_, fun f' hf' hid hne ha ↦ ?_, ?_⟩
    · obtain ⟨f', hf', hid⟩ := hmoves.stays f hf
      obtain ⟨g, hg, hgid, -, hgvalid⟩ := hmoves.same f' hf'
      obtain rfl := Db.eq_of_id_eq hg hf (hgid.trans hid)
      exact ⟨f', hf', hid, (resolveMembers_status hwalk hf' (hid ▸ hk)).mpr hid, hgvalid ▸ hvalid⟩
    · exact hne ((resolveMembers_status hwalk hf' hid).mp ha)
    · refine ⟨s.resolve now, (Table.mem_update fun t _ ↦ t.resolve_id now).mpr
        ⟨s, hmoves.conflictSets ▸ hs, if_pos rfl⟩, rfl, rfl⟩

/-- The equivalence for the candidate of an open contradiction. -/
theorem resolveConflict_honoured_lyonOrNice :
    ∃ s f, s ∈ (runOps .sample .empty Sample.lyonOrNice).conflictSets ∧ f.status = .candidate ∧
      (Honoured 3 (runOps .sample .empty Sample.lyonOrNice) s f.id ↔
        Resolvable 3 (runOps .sample .empty Sample.lyonOrNice) s f) := by
  have h : ∃ s ∈ (runOps .sample .empty Sample.lyonOrNice).conflictSets, s.status = .open ∧
      ∃ f ∈ (runOps .sample .empty Sample.lyonOrNice).facts, f.id ∈ s.factIds ∧
        f.status = .candidate := by decide +kernel
  obtain ⟨s, hs, ho, f, hf, hk, hc⟩ := h
  exact ⟨s, f, hs, hc, resolveConflict_honoured_iff (by decide +kernel) hs ho hf hk (by simp [hc])
    (by simp [hc])⟩

/-- The subject lives in Lyon, and a third party says Nice: that is held for review. -/
def Sample.heldNice : Db :=
  runOps .sample .empty
    (Sample.observe (Sample.event 1 .trusted) [Sample.create "city" "Lyon"] ++
      Sample.observe (Sample.event 2 .thirdParty) [Sample.create "city" "Nice"])

/-- A held fact cannot be accepted: the fact it was held against has its slot. -/
theorem held_fact_not_kept :
    Reachable .sample Op.IsConsolidation Sample.heldNice ∧
      ∃ s ∈ Sample.heldNice.conflictSets, ∃ f ∈ Sample.heldNice.facts, s.status = .open ∧
        f.id ∈ s.factIds ∧ f.status = .candidate ∧ ¬ Honoured 3 Sample.heldNice s f.id := by
  refine ⟨⟨_, by simp [Sample.observe, Op.IsConsolidation], rfl⟩, ?_⟩
  have h : ∃ s ∈ Sample.heldNice.conflictSets, ∃ f ∈ Sample.heldNice.facts, s.status = .open ∧
      f.id ∈ s.factIds ∧ f.status = .candidate ∧
      failure? (resolveConflict 3 Sample.heldNice s.scope.projectId s.id f.id) =
        some .uniqueViolation := by decide +kernel
  obtain ⟨s, hs, f, hf, ho, hk, hc, hfail⟩ := h
  refine ⟨s, hs, f, hf, ho, hk, hc, ?_⟩
  rintro ⟨db', hok, -⟩
  cases (failure?_eq_some.mp hfail).symm.trans hok

end Haki
