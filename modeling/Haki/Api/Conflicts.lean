import Haki.Ledger.Core

/-!
# Human resolution of a conflict set

`POST /v1/conflicts/{id}/resolve`: the kept fact becomes active and every other
member superseded by it, one member after the other in the order of the set,
each change flushed before the next.
-/

namespace Haki

open Data

/-- What resolution does to the kept member. -/
def keepMember (now : Timestamp) (db : Db) (id : FactId) : Except LedgerError Db := do
  let fact ← getFact db id
  match fact.status with
  | .superseded => transitionFactStatus now db id .active
  | .disabled => throw .conflictKeepDisabled
  | .active => pure db
  | _ => transitionFactStatus now db id .active

/-- What resolution does to any other member. -/
def loseMember (now : Timestamp) (db : Db) (keep id : FactId) : Except LedgerError Db := do
  let fact ← getFact db id
  match fact.status with
  | .superseded => pure db
  | .disabled => pure db
  | _ => do
    let db ← transitionFactStatus now db id .superseded
    pure (db.updateFact id fun f ↦ { f with supersedesId := some keep })

/-- One round of the loop over `conflict.fact_ids`. -/
def resolveMember (now : Timestamp) (keep : FactId) (db : Db) (id : FactId) :
    Except LedgerError Db :=
  if id = keep then keepMember now db id else loseMember now db keep id

/-- A set that was resolved. -/
def ConflictSet.resolve (s : ConflictSet) (now : Timestamp) : ConflictSet :=
  { s with status := .resolved, resolvedAt := some now }

@[simp] theorem ConflictSet.resolve_id (s : ConflictSet) (now : Timestamp) :
    (s.resolve now).id = s.id := rfl

/-- `resolve_conflict`. -/
def resolveConflict (now : Timestamp) (db : Db) (projectId : String) (id : ConflictId)
    (keep : FactId) : Except LedgerError Db := do
  match db.conflictSet? id with
  | none => throw .conflictNotFound
  | some conflict =>
    if conflict.scope.projectId ≠ projectId then throw .conflictNotFound
    else if conflict.status ≠ .open then throw .conflictAlreadyResolved
    else if keep ∉ conflict.factIds then throw .factNotInConflict
    else do
      let db ← conflict.factIds.foldlM (resolveMember now keep) db
      pure (db.updateConflictSet id (·.resolve now))

/-! ## What a resolution does -/

section

variable {now : Timestamp} {db db' : Db} {keep id : FactId}

/-- A kept member is active already, or becomes active. -/
theorem keepMember_eq_ok (h : keepMember now db id = .ok db') :
    ∃ f, db.fact? id = some f ∧
      ((f.status = .active ∧ db' = db) ∨
        (f.status ≠ .active ∧ f.status ≠ .disabled ∧ f.status ≠ .deleted ∧
          db' = db.updateFact id (·.moveTo .active now) ∧ db'.UniqueActive)) := by
  obtain ⟨f, hf, h⟩ := Control.bind_eq_ok.mp h
  have hf := getFact_eq_ok.mp hf
  have moved (hs : f.status ≠ .active) (hd : f.status ≠ .disabled)
      (h : transitionFactStatus now db id .active = .ok db') :
      f.status ≠ .active ∧ f.status ≠ .disabled ∧ f.status ≠ .deleted ∧
        db' = db.updateFact id (·.moveTo .active now) ∧ db'.UniqueActive := by
    obtain ⟨g, hg, ht, he, hu⟩ := transitionFactStatus_eq_ok h
    obtain rfl := Option.some.inj (hf.symm.trans hg)
    refine ⟨hs, hd, fun hdel ↦ ?_, he, hu⟩
    rw [hdel] at ht
    cases ht
  refine ⟨f, hf, ?_⟩
  split at h
  · next hs => exact .inr (moved (by simp [hs]) (by simp [hs]) h)
  · cases h
  · next hs =>
    cases h
    exact .inl ⟨hs, rfl⟩
  · next hs hd ha => exact .inr (moved ha hd h)

/-- A member that lost against `keep`. -/
def Fact.lostTo (f : Fact) (keep : FactId) (now : Timestamp) : Fact :=
  { f.moveTo .superseded now with supersedesId := some keep }

@[simp] theorem Fact.lostTo_id (f : Fact) (keep : FactId) (now : Timestamp) :
    (f.lostTo keep now).id = f.id := rfl

/-- A member with this status is superseded when it is not the kept one. -/
def FactStatus.Losing (s : FactStatus) : Prop := s ≠ .superseded ∧ s ≠ .disabled ∧ s ≠ .deleted

/-- Any other member is out of service already, or becomes superseded by the kept one. -/
theorem loseMember_eq_ok (h : loseMember now db keep id = .ok db') :
    ∃ f, db.fact? id = some f ∧
      (((f.status = .superseded ∨ f.status = .disabled) ∧ db' = db) ∨
        (f.status.Losing ∧
          db' = db.updateFact id (·.lostTo keep now) ∧
          (db.updateFact id (·.moveTo .superseded now)).UniqueActive)) := by
  obtain ⟨f, hf, h⟩ := Control.bind_eq_ok.mp h
  have hf := getFact_eq_ok.mp hf
  refine ⟨f, hf, ?_⟩
  split at h
  · next hs =>
    cases h
    exact .inl ⟨.inl hs, rfl⟩
  · next hs =>
    cases h
    exact .inl ⟨.inr hs, rfl⟩
  · next hsup hdis =>
    obtain ⟨db₁, h₁, h⟩ := Control.bind_eq_ok.mp h
    obtain ⟨g, hg, ht, rfl, hu⟩ := transitionFactStatus_eq_ok h₁
    obtain rfl := Option.some.inj (hf.symm.trans hg)
    cases h
    refine .inr ⟨⟨hsup, hdis, fun hdel ↦ ?_⟩, ?_, hu⟩
    · rw [hdel] at ht
      cases ht
    · exact Db.updateFact_updateFact_self (Fact.moveTo_id · _ now) fun _ ↦ rfl

/-- A successful resolution: the set was open and listed the kept fact, every member was moved,
and the set is resolved. -/
theorem resolveConflict_eq_ok {projectId : String} {id : ConflictId}
    (h : resolveConflict now db projectId id keep = .ok db') :
    ∃ conflict db₁, db.conflictSet? id = some conflict ∧ conflict.status = .open ∧
      keep ∈ conflict.factIds ∧ conflict.factIds.foldlM (resolveMember now keep) db = .ok db₁ ∧
      db' = db₁.updateConflictSet id (·.resolve now) := by
  rw [resolveConflict] at h
  split at h
  · cases h
  · next conflict hc =>
    split at h
    · cases h
    · split at h
      · cases h
      · next ho =>
        split at h
        · cases h
        · next hk =>
          obtain ⟨db₁, h₁, h⟩ := Control.bind_eq_ok.mp h
          cases h
          exact ⟨conflict, db₁, hc, not_not.mp ho, not_not.mp hk, h₁, rfl⟩

/-- Moving a member rewrites that one fact, if anything. -/
theorem resolveMember_eq_ok (h : resolveMember now keep db id = .ok db') :
    db' = db ∨ ∃ g : Fact → Fact,
      (∀ f, (g f).id = f.id ∧ (g f).scope = f.scope ∧ (g f).validTo = f.validTo) ∧
      db' = db.updateFact id g := by
  rw [resolveMember] at h
  split at h
  · obtain ⟨-, -, ⟨-, rfl⟩ | ⟨-, -, -, rfl, -⟩⟩ := keepMember_eq_ok h
    · exact .inl rfl
    · exact .inr ⟨(·.moveTo .active now), fun _ ↦ ⟨rfl, rfl, rfl⟩, rfl⟩
  · obtain ⟨-, -, ⟨-, rfl⟩ | ⟨-, rfl, -⟩⟩ := loseMember_eq_ok h
    · exact .inl rfl
    · exact .inr ⟨(·.lostTo keep now), fun _ ↦ ⟨rfl, rfl, rfl⟩, rfl⟩

/-- At most the facts `ids` are rewritten, and they keep their scope and their validity. -/
structure Db.Moves (ids : List FactId) (db db' : Db) : Prop where
  other : ∀ id ∉ ids, db'.fact? id = db.fact? id
  same : ∀ f' ∈ db'.facts, ∃ f ∈ db.facts, f.id = f'.id ∧ f.scope = f'.scope ∧
    f.validTo = f'.validTo
  stays : ∀ f ∈ db.facts, ∃ f' ∈ db'.facts, f'.id = f.id
  conflictSets : db'.conflictSets = db.conflictSets

/-- A resolution moves the members of the set, and no other fact. -/
theorem resolveMembers_moves {ids : List FactId}
    (h : ids.foldlM (resolveMember now keep) db = .ok db') : db.Moves ids db' := by
  refine Control.foldlM_invariant (C := fun _ id ↦ id ∈ ids) (fun db₁ id db₂ hI hid h ↦ ?_)
    ⟨fun _ _ ↦ rfl, fun f hf ↦ ⟨f, hf, rfl, rfl, rfl⟩, fun f hf ↦ ⟨f, hf, rfl⟩, rfl⟩
    (Control.foldMeets_of_forall_mem (fun _ hid ↦ hid) db) h
  rcases resolveMember_eq_ok h with rfl | ⟨g, hg, rfl⟩
  · exact hI
  · refine ⟨fun i hi ↦ ?_, fun f' hf' ↦ ?_, fun f hf ↦ ?_, hI.conflictSets⟩
    · rw [Db.fact?_updateFact fun f ↦ (hg f).1, if_neg fun h : i = id ↦ hi (h ▸ hid), hI.other i hi]
    · obtain ⟨f₁, hf₁, rfl⟩ := (Db.mem_updateFact fun f ↦ (hg f).1).mp hf'
      obtain ⟨f, hf, hid, hscope, hvalid⟩ := hI.same f₁ hf₁
      obtain ⟨gid, gscope, gvalid⟩ := hg f₁
      refine ⟨f, hf, ?_⟩
      split
      · exact ⟨hid.trans gid.symm, hscope.trans gscope.symm, hvalid.trans gvalid.symm⟩
      · exact ⟨hid, hscope, hvalid⟩
    · obtain ⟨f₁, hf₁, hid⟩ := hI.stays f hf
      refine ⟨_, (Db.mem_updateFact fun f ↦ (hg f).1).mpr ⟨f₁, hf₁, rfl⟩, ?_⟩
      split
      · exact (hg f₁).1.trans hid
      · exact hid

/-- What a resolution in favour of `keep` makes of a fact. -/
inductive Fact.Resolves (ids : List FactId) (keep : FactId) (now : Timestamp) (f : Fact) :
    Fact → Prop where
  | same : Resolves ids keep now f f
  | kept (hid : f.id = keep) (hne : f.status ≠ .active) :
      Resolves ids keep now f (f.moveTo .active now)
  | lost (hmem : f.id ∈ ids) (hid : f.id ≠ keep) (hlosing : f.status.Losing) :
      Resolves ids keep now f (f.lostTo keep now)

theorem Fact.Resolves.id_eq {ids : List FactId} {f f' : Fact} (h : f.Resolves ids keep now f') :
    f'.id = f.id := by
  cases h <;> rfl

/-- Moving a member goes on with the resolution of every fact. -/
theorem resolveMember_resolves {ids : List FactId} {db₀ : Db} (hid : id ∈ ids)
    (hI : ∀ f ∈ db₀.facts, ∃ f₁ ∈ db.facts, f.Resolves ids keep now f₁)
    (h : resolveMember now keep db id = .ok db') :
    ∀ f ∈ db₀.facts, ∃ f' ∈ db'.facts, f.Resolves ids keep now f' := by
  intro f hf
  obtain ⟨f₁, hf₁, hr⟩ := hI f hf
  have hfid := hr.id_eq
  have moved {g : Fact → Fact} (hg : ∀ f, (g f).id = f.id)
      (hr' : f₁.id ≠ id → f.Resolves ids keep now f₁)
      (hr'' : f₁.id = id → f.Resolves ids keep now (g f₁)) :
      ∃ f' ∈ (db.updateFact id g).facts, f.Resolves ids keep now f' := by
    refine ⟨_, (Db.mem_updateFact hg).mpr ⟨f₁, hf₁, rfl⟩, ?_⟩
    split
    · next hi => exact hr'' hi
    · next hi => exact hr' hi
  rw [resolveMember] at h
  split at h
  · next hk =>
    obtain ⟨f₂, hf₂, ⟨-, rfl⟩ | ⟨hne, -, -, rfl, -⟩⟩ := keepMember_eq_ok h
    · exact ⟨f₁, hf₁, hr⟩
    · refine moved (Fact.moveTo_id · _ now) (fun _ ↦ hr) fun hi ↦ ?_
      obtain rfl := Db.eq_of_id_eq (Db.mem_of_fact? hf₂) hf₁ ((Db.id_of_fact? hf₂).trans hi.symm)
      cases hr with
      | same => exact .kept (hi.trans hk) hne
      | kept => exact absurd rfl hne
      | lost _ hid => exact absurd (hi.trans hk) hid
  · next hk =>
    obtain ⟨f₂, hf₂, ⟨-, rfl⟩ | ⟨hlosing, rfl, -⟩⟩ := loseMember_eq_ok h
    · exact ⟨f₁, hf₁, hr⟩
    · refine moved (Fact.lostTo_id · keep now) (fun _ ↦ hr) fun hi ↦ ?_
      obtain rfl := Db.eq_of_id_eq (Db.mem_of_fact? hf₂) hf₁ ((Db.id_of_fact? hf₂).trans hi.symm)
      cases hr with
      | same => exact .lost (hi ▸ hid) (fun h ↦ hk (hi.symm.trans h)) hlosing
      | kept hfk => exact absurd (hi.symm.trans hfk) hk
      | lost => exact absurd rfl hlosing.1

/-- What a resolution makes of every fact. -/
theorem resolveMembers_resolves {ids : List FactId}
    (h : ids.foldlM (resolveMember now keep) db = .ok db') :
    ∀ f ∈ db.facts, ∃ f' ∈ db'.facts, f.Resolves ids keep now f' :=
  Control.foldlM_invariant (C := fun _ id ↦ id ∈ ids)
    (fun _ _ _ hI hid h ↦ resolveMember_resolves hid hI h) (fun f hf ↦ ⟨f, hf, .same⟩)
    (Control.foldMeets_of_forall_mem (fun _ hid ↦ hid) db) h

/-- Every fact after a resolution is what it made of one. -/
theorem exists_resolves {ids : List FactId}
    (h : ids.foldlM (resolveMember now keep) db = .ok db') {f' : Fact} (hf' : f' ∈ db'.facts) :
    ∃ f ∈ db.facts, f.Resolves ids keep now f' := by
  obtain ⟨f, hf, hid, -⟩ := (resolveMembers_moves h).same f' hf'
  obtain ⟨f'', hf'', hr⟩ := resolveMembers_resolves h f hf
  obtain rfl := Db.eq_of_id_eq hf'' hf' (hr.id_eq.trans hid)
  exact ⟨f, hf, hr⟩

end

end Haki
