import Haki.Consolidator.Job

/-!
# What applying a candidate does

The adjudicator interleaves decisions with writes.  This module separates
them: `effectOf` decides which one of six effects a candidate has, from the
ledger as it stands before the candidate, and `Effect.apply` says what the
effect does to the rows.  `adjudicate_eq` shows that deciding first and
committing once is what `adjudicate` does, on every ledger that meets the
partial unique index.

Every effect has the same shape: the facts present before are rewritten by
`Effect.onFact`, one row is added, and the conflict sets change by
`Effect.onSets`.
-/

namespace Haki

open Data Control

/-! ## Effects -/

/-- What a candidate that is not a duplicate does. -/
inductive Effect where
  /-- Written but not activated, alone in a quarantine set. -/
  | hold
  /-- Activated next to whatever is there. -/
  | accept
  /-- Activated in the place of `old`. -/
  | replace (old : Fact)
  /-- Written but not activated, in a new conflict set with `old`. -/
  | openConflict (old : Fact)
  /-- Written but not activated, in an open conflict set that had room. -/
  | joinConflict (conflict : ConflictSet)
  /-- Activated with `old` and the other member of a full conflict set, all as occurrences. -/
  | overflow (old : Fact) (conflict : ConflictSet) (other : Option Fact)

/-- Decide the effect of contradicting `old`. -/
def contradictionOf (db : Db) (event : Event) (old : Fact) : Except LedgerError Effect :=
  match db.openConflictSet event.scope old.id with
  | none => .ok (.openConflict old)
  | some conflict =>
    if conflictSetMaxMembers ≤ conflict.factIds.length then
      match conflict.factIds.find? (· ≠ old.id) with
      | none => .error .stopIteration
      | some otherId =>
        match db.fact? otherId with
        | none => .ok (.overflow old conflict none)
        | some other =>
          if other.status = .deleted then .error (.illegalTransition .deleted .active)
          else .ok (.overflow old conflict (some other))
    else .ok (.joinConflict conflict)

/-- Decide the effect. -/
def effectOf (db : Db) (candidate : Candidate) (existing : Option Fact) (memoryForm : MemoryForm)
    (event : Event) : Except LedgerError Effect :=
  if HeldBack event existing then .ok .hold
  else
    match existing with
    | none => .ok .accept
    | some old =>
      if candidate.action = .supersede then .ok (.replace old)
      else if memoryForm = .event ∨ canonical old.value = canonical candidate.value then .ok .accept
      else contradictionOf db event old

/-- A replaced fact: superseded, and no longer valid from `closing` on. -/
def Fact.closedAt (f : Fact) (closing now : Timestamp) : Fact :=
  { f.moveTo .superseded now with validTo := some closing }

/-- A fact of an overflowing identity, active from now on. -/
def Fact.asOccurrence (f : Fact) (now : Timestamp) : Fact :=
  if f.status = .active then f.reclassify now else (f.reclassify now).moveTo .active now

@[simp] theorem Fact.closedAt_id (f : Fact) (closing now : Timestamp) :
    (f.closedAt closing now).id = f.id := rfl

@[simp] theorem Fact.asOccurrence_id (f : Fact) (now : Timestamp) :
    (f.asOccurrence now).id = f.id := by
  rw [Fact.asOccurrence]
  split <;> rfl

@[simp] theorem Fact.asOccurrence_memoryForm (f : Fact) (now : Timestamp) :
    (f.asOccurrence now).memoryForm = .event := by
  rw [Fact.asOccurrence]
  split <;> rfl

/-- A conflict set with one more member. -/
def ConflictSet.extend (s : ConflictSet) (id : FactId) : ConflictSet :=
  { s with factIds := s.factIds ++ [id] }

/-- A conflict set dissolved by its third member. -/
def ConflictSet.dissolve (s : ConflictSet) (id : FactId) (now : Timestamp) : ConflictSet :=
  { s with
    factIds := s.factIds ++ [id]
    status := .reclassifiedEvent
    resolvedAt := some now }

@[simp] theorem ConflictSet.extend_id (s : ConflictSet) (id : FactId) : (s.extend id).id = s.id := rfl

@[simp] theorem ConflictSet.dissolve_id (s : ConflictSet) (id : FactId) (now : Timestamp) :
    (s.dissolve id now).id = s.id := rfl

namespace Effect

variable (env : Env) (event : Event)

/-- What the effect does to a fact that is there already. -/
def onFact : Effect → Fact → Fact
  | .replace old, f => if f.id = old.id then f.closedAt (closingTime old event) env.now else f
  | .overflow old _ other, f =>
    if f.id = old.id ∨ ∃ o ∈ other, f.id = o.id then f.asOccurrence env.now else f
  | _, f => f

/-- The row it adds, from the candidate row. -/
def onRow : Effect → Fact → Fact
  | .accept, row => row.moveTo .active env.now
  | .replace old, row => { row with supersedesId := some old.id }.moveTo .active env.now
  | .overflow _ _ _, row => (row.reclassify env.now).moveTo .active env.now
  | _, row => row

/-- What it does to the conflict sets. -/
def onSets (db : Db) (id : FactId) : Effect → Table ConflictSet
  | .hold => db.conflictSets.insert (newConflictSet env db event [id] .quarantine)
  | .openConflict old =>
    db.conflictSets.insert (newConflictSet env db event [old.id, id] .contradiction)
  | .joinConflict conflict => db.conflictSets.update conflict.id (·.extend id)
  | .overflow _ conflict _ => db.conflictSets.update conflict.id (·.dissolve id env.now)
  | _ => db.conflictSets

@[simp] theorem onFact_id (e : Effect) (f : Fact) : (e.onFact env event f).id = f.id := by
  cases e with
  | replace old => simp only [onFact]; split <;> simp
  | overflow old conflict other => simp only [onFact]; split <;> simp
  | _ => rfl

@[simp] theorem onRow_id (e : Effect) (f : Fact) : (e.onRow env f).id = f.id := by
  cases e <;> rfl

/-- The ledger after the effect, `row` being the candidate row. -/
def apply (db : Db) (row : Fact) (e : Effect) : Db :=
  { db with
    facts := (db.facts.modify (e.onFact env event)).insert (e.onRow env row)
    conflictSets := e.onSets env event db row.id }

/-- The counters after the effect. -/
def count (result : JobResult) (candidate : Candidate) : Effect → JobResult
  | .hold => { result with quarantined := result.quarantined + 1 }
  | .accept =>
    if candidate.action = .supersede then
      { result with
        supersedeWithoutExisting := result.supersedeWithoutExisting + 1
        created := result.created + 1 }
    else { result with created := result.created + 1 }
  | .replace _ =>
    { result with superseded := result.superseded + 1, created := result.created + 1 }
  | .openConflict _ | .joinConflict _ => { result with conflicts := result.conflicts + 1 }
  | .overflow _ _ _ =>
    { result with
      created := result.created + 1
      reclassifiedEvent := result.reclassifiedEvent + 1 }

end Effect

/-- The value the new row stores: only a candidate that is not held carries keys forward. -/
def storedValue (candidate : Candidate) (existing : Option Fact) (event : Event) : Dict :=
  if HeldBack event existing then candidate.value else carryForward candidate existing

/-- The row of a candidate, before its effect; computing it fails when a date helper raises. -/
def candidateRow (env : Env) (db : Db) (candidate : Candidate) (existing : Option Fact)
    (embedding : Embedding) (event : Event) : Except LedgerError Fact := do
  let classes ← classesOf env candidate existing event
  let draft ← draftOf env candidate classes event (storedValue candidate existing event) embedding
  pure (draft.row (db.freshFactId event.id) env.now)

/-! ## The facts after an effect -/

section Facts

variable {env : Env} {event : Event} {db : Db} {row f : Fact} {e : Effect}

theorem Effect.fresh_onRow (hf : db.facts.Fresh row) :
    (db.facts.modify (e.onFact env event)).Fresh (e.onRow env row) := by
  intro b hb
  obtain ⟨a, ha, rfl⟩ := (Table.mem_modify (Effect.onFact_id env event e)).mp hb
  simpa using hf a ha

/-- A fact after the effect is a fact from before, rewritten, or the new row. -/
theorem Effect.mem_apply (hf : db.facts.Fresh row) :
    f ∈ (e.apply env event db row).facts ↔
      (∃ g ∈ db.facts, e.onFact env event g = f) ∨ f = e.onRow env row := by
  rw [Effect.apply, Table.mem_insert (Effect.fresh_onRow hf),
    Table.mem_modify (Effect.onFact_id env event e)]

/-- What an effect never rewrites: a fact without its lifecycle columns. -/
def Fact.content (f : Fact) : Fact :=
  { f with
    status := .candidate
    validTo := none
    recordedTo := none
    supersedesId := none
    version := 0
    memoryForm := .state
    reclassifiedAt := none }

theorem Fact.asOccurrence_content (f : Fact) (now : Timestamp) :
    (f.asOccurrence now).content = f.content := by
  rw [Fact.asOccurrence]
  split <;> rfl

theorem Fact.asOccurrence_status (f : Fact) (now : Timestamp) :
    (f.asOccurrence now).status = .active := by
  rw [Fact.asOccurrence]
  split
  · assumption
  · rfl

theorem Effect.onFact_content (e : Effect) (f : Fact) :
    (e.onFact env event f).content = f.content := by
  cases e with
  | replace old => simp only [onFact]; split <;> rfl
  | overflow old conflict other =>
    simp only [onFact]
    split
    · exact f.asOccurrence_content env.now
    · rfl
  | _ => rfl

theorem Effect.onRow_content (e : Effect) (row : Fact) : (e.onRow env row).content = row.content := by
  cases e <;> rfl

theorem Fact.scope_of_content {f g : Fact} (h : f.content = g.content) : f.scope = g.scope :=
  (congrArg Fact.scope h : f.content.scope = g.content.scope)

theorem Fact.originTrust_of_content {f g : Fact} (h : f.content = g.content) :
    f.originTrust = g.originTrust :=
  (congrArg Fact.originTrust h : f.content.originTrust = g.content.originTrust)

/-- An effect leaves a fact as it is, closes the replaced one, or makes an occurrence of a member
of an overflowing set. -/
theorem Effect.onFact_cases (e : Effect) (f : Fact) :
    e.onFact env event f = f ∨
    (∃ old, e = .replace old ∧ f.id = old.id ∧
      e.onFact env event f = f.closedAt (closingTime old event) env.now) ∨
    (∃ old conflict other, e = .overflow old conflict other ∧
      (f.id = old.id ∨ ∃ o ∈ other, f.id = o.id) ∧
      e.onFact env event f = f.asOccurrence env.now) := by
  cases e with
  | replace old =>
    by_cases h : f.id = old.id
    · exact .inr (.inl ⟨old, rfl, h, if_pos h⟩)
    · exact .inl (if_neg h)
  | overflow old conflict other =>
    by_cases h : f.id = old.id ∨ ∃ o ∈ other, f.id = o.id
    · exact .inr (.inr ⟨old, conflict, other, rfl, h, if_pos h⟩)
    · exact .inl (if_neg h)
  | _ => exact .inl rfl

/-- A conflict set after an effect was there before, untouched, or is the new or the changed one. -/
theorem Effect.mem_onSets {id : FactId} {s' : ConflictSet} (h : s' ∈ e.onSets env event db id) :
    (s' ∈ db.conflictSets ∧ (∀ c, e = .joinConflict c → s'.id ≠ c.id) ∧
      ∀ old c other, e = .overflow old c other → s'.id ≠ c.id) ∨
    (e = .hold ∧ s' = newConflictSet env db event [id] .quarantine) ∨
    (∃ old, e = .openConflict old ∧
      s' = newConflictSet env db event [old.id, id] .contradiction) ∨
    (∃ c, e = .joinConflict c ∧
      ∃ s ∈ db.conflictSets, s.id = c.id ∧ s' = s.extend id) ∨
    (∃ old c other, e = .overflow old c other ∧ ∃ s ∈ db.conflictSets, s.id = c.id ∧
      s' = s.dissolve id env.now) := by
  have hfresh : ∀ ids kind, db.conflictSets.Fresh (newConflictSet env db event ids kind) :=
    fun _ _ s hs ↦ db.freshConflictId_ne event.id hs
  cases e with
  | hold =>
    rcases (Table.mem_insert (hfresh _ _)).mp h with h | rfl
    · exact .inl ⟨h, by simp, by simp⟩
    · exact .inr (.inl ⟨rfl, rfl⟩)
  | openConflict old =>
    rcases (Table.mem_insert (hfresh _ _)).mp h with h | rfl
    · exact .inl ⟨h, by simp, by simp⟩
    · exact .inr (.inr (.inl ⟨old, rfl, rfl⟩))
  | joinConflict c =>
    obtain ⟨s, hs, rfl⟩ := (Table.mem_update fun s _ ↦ s.extend_id id).mp h
    by_cases hid : s.id = c.id
    · exact .inr (.inr (.inr (.inl ⟨c, rfl, s, hs, hid, if_pos hid⟩)))
    · rw [key_conflictSet, if_neg hid]
      exact .inl ⟨hs, by rintro _ ⟨⟩; exact hid, by simp⟩
  | overflow old c other =>
    obtain ⟨s, hs, rfl⟩ := (Table.mem_update fun s _ ↦ s.dissolve_id id env.now).mp h
    by_cases hid : s.id = c.id
    · exact .inr (.inr (.inr (.inr ⟨old, c, other, rfl, s, hs, hid, if_pos hid⟩)))
    · rw [key_conflictSet, if_neg hid]
      exact .inl ⟨hs, by simp, by rintro _ _ _ ⟨⟩; exact hid⟩
  | _ => exact .inl ⟨h, by simp, by simp⟩

end Facts

/-! ## Uniqueness across an effect -/

/-- A ledger meets the index when every current fact of it has one in a ledger that does. -/
theorem Db.UniqueActive.of_current {db db' : Db} (hu : db.UniqueActive)
    (h : ∀ f ∈ db'.facts, f.Current → ∃ g ∈ db.facts, g.Current ∧ g.id = f.id ∧
      g.scope = f.scope ∧ g.predicate = f.predicate ∧ g.qualifiers = f.qualifiers) :
    db'.UniqueActive := by
  intro f₁ h₁ c₁ f₂ h₂ c₂ hs
  obtain ⟨g₁, hg₁, cg₁, i₁, s₁, p₁, q₁⟩ := h f₁ h₁ c₁
  obtain ⟨g₂, hg₂, cg₂, i₂, s₂, p₂, q₂⟩ := h f₂ h₂ c₂
  have hg : g₁.SameSlot g₂ := by
    simpa only [Fact.SameSlot, Fact.HasKey, identityQualifiersSql, s₁, s₂, p₁, p₂, q₁, q₂] using hs
  rw [← i₁, ← i₂]
  exact hu g₁ hg₁ cg₁ g₂ hg₂ cg₂ hg

/-- A row that is not an active state fact does not touch the index. -/
theorem Db.UniqueActive.insertFact {db : Db} (hu : db.UniqueActive) {row : Fact}
    (hf : db.facts.Fresh row) (hc : ¬ row.Current) : (db.insertFact row).UniqueActive := by
  refine hu.of_current fun f hm hfc ↦ ?_
  rcases (Db.mem_insertFact hf).mp hm with hm | rfl
  · exact ⟨f, hm, hfc, rfl, rfl, rfl, rfl⟩
  · exact absurd hfc hc

theorem Db.UniqueActive.updateFact {db : Db} (hu : db.UniqueActive) {id : FactId}
    {g : Fact → Fact} (hg : ∀ f, (g f).id = f.id)
    (hc : ∀ f ∈ db.facts, f.id = id → ¬ (g f).Current) : (db.updateFact id g).UniqueActive := by
  refine hu.of_current fun f hm hfc ↦ ?_
  obtain ⟨a, ha, rfl⟩ := (Db.mem_updateFact hg).mp hm
  split at hfc
  · next h => exact absurd hfc (hc a ha h)
  · next h => rw [if_neg h]; exact ⟨a, ha, hfc, rfl, rfl, rfl, rfl⟩

/-! ## The branches of the adjudicator as effects -/

section Branches

variable {env : Env} {db : Db} {event : Event} {row old : Fact} {result : JobResult}

/-- Activating the row just written. -/
theorem transitionFactStatus_row {now : Timestamp} (hf : db.facts.Fresh row)
    (hs : row.status = .candidate) :
    transitionFactStatus now (db.insertFact row) row.id .active =
      flush (db.insertFact (row.moveTo .active now)) := by
  rw [transitionFactStatus_eq (Db.fact?_insertFact_self hf) (by simp [allowedTransitions, hs]),
    Db.updateFact_insertFact_self ?_ hf]
  exact fun _ ↦ rfl

/-- Replacing an active fact by the row just written. -/
theorem supersedeExisting_some (hu : db.UniqueActive) (hf : db.facts.Fresh row)
    (hs : row.status = .candidate) (ho : old ∈ db.facts) (ha : old.status = .active) :
    supersedeExisting env (db.insertFact row) row.id (some old) event result =
      (flush (Effect.apply env event db row (.replace old))) >>= fun db' ↦
        .ok (db', { result with
          superseded := result.superseded + 1
          created := result.created + 1 }) := by
  have hne : row.id ≠ old.id := fun h ↦ hf old ho h.symm
  have hfo : (db.insertFact row).fact? old.id = some old := by
    rw [Db.fact?_insertFact_of_ne hf hne, Db.fact?_of_mem ho]
  have hu' : ((db.insertFact row).updateFact old.id (·.moveTo .superseded env.now)).UniqueActive := by
    refine (hu.insertFact hf fun h ↦ ?_).updateFact (fun _ ↦ rfl) fun f _ _ h ↦ ?_
    · rw [Fact.Current, hs] at h
      cases h.1
    · cases h.1
  have hwrites : (((db.insertFact row).updateFact old.id (·.moveTo .superseded env.now)).updateFact
      old.id fun f ↦ { f with validTo := some (closingTime old event) }).updateFact row.id
        (fun f ↦ { f with supersedesId := some old.id }) =
      (db.updateFact old.id fun f ↦ { f.moveTo .superseded env.now with
        validTo := some (closingTime old event) }).insertFact
          { row with supersedesId := some old.id } := by
    rw [Db.updateFact_updateFact_self ?_ ?_, Db.updateFact_insertFact_of_ne ?_ hf hne,
      Db.updateFact_insertFact_self ?_ (Db.fresh_updateFact ?_ hf)]
    all_goals exact fun _ ↦ rfl
  have hrow : transitionFactStatus env.now ((db.updateFact old.id fun f ↦
      { f.moveTo .superseded env.now with validTo := some (closingTime old event) }).insertFact
        { row with supersedesId := some old.id }) row.id .active = flush _ :=
    transitionFactStatus_row (Db.fresh_updateFact (fun _ ↦ rfl) hf) hs
  simp only [supersedeExisting, transitionFactStatus_eq hfo (by simp [allowedTransitions, ha] :
    FactStatus.superseded ∈ allowedTransitions old.status), flush_of_unique hu', hwrites, ok_bind,
    pure_bind, hrow]
  rfl

theorem apply_of_onFact_eq {e : Effect} (he : ∀ f, e.onFact env event f = f) :
    e.apply env event db row =
      { db.insertFact (e.onRow env row) with conflictSets := e.onSets env event db row.id } := by
  rw [Effect.apply, Table.modify_id he]
  rfl

theorem apply_accept :
    Effect.apply env event db row .accept = db.insertFact (row.moveTo .active env.now) := by
  rw [apply_of_onFact_eq fun _ ↦ rfl]
  rfl

theorem apply_replace :
    Effect.apply env event db row (.replace old) =
      (db.updateFact old.id (·.closedAt (closingTime old event) env.now)).insertFact
        ({ row with supersedesId := some old.id }.moveTo .active env.now) := rfl

theorem activate_eq (hf : db.facts.Fresh row) (hs : row.status = .candidate) :
    activate env (db.insertFact row) row.id result =
      (flush (Effect.apply env event db row .accept)) >>= fun db' ↦
        .ok (db', { result with created := result.created + 1 }) := by
  rw [activate, transitionFactStatus_row hf hs, apply_accept]
  rfl

theorem supersedeExisting_none (hf : db.facts.Fresh row) (hs : row.status = .candidate) :
    supersedeExisting env (db.insertFact row) row.id none event result =
      (flush (Effect.apply env event db row .accept)) >>= fun db' ↦
        .ok (db', { result with
          supersedeWithoutExisting := result.supersedeWithoutExisting + 1
          created := result.created + 1 }) := by
  simp only [supersedeExisting, pure_bind, transitionFactStatus_row hf hs, apply_accept]
  rfl

/-- An effect that leaves the row a candidate cannot be refused. -/
theorem flush_apply_candidate (hu : db.UniqueActive) (hf : db.facts.Fresh row)
    (hs : row.status = .candidate) {e : Effect} (he : ∀ f, e.onFact env event f = f)
    (hr : e.onRow env row = row) :
    flush (e.apply env event db row) = .ok (e.apply env event db row) := by
  refine flush_of_unique ?_
  rw [apply_of_onFact_eq he, hr]
  refine hu.insertFact hf fun h ↦ ?_
  rw [Fact.Current, hs] at h
  cases h.1

theorem onFact_overflow_of_current {conflict : ConflictSet} {other : Option Fact} {f : Fact}
    (h : (Effect.onFact env event (.overflow old conflict other) f).Current) :
    Effect.onFact env event (.overflow old conflict other) f = f := by
  simp only [Effect.onFact] at h ⊢
  split at h
  · rw [Fact.Current, Fact.asOccurrence_memoryForm] at h
    cases h.2
  · next hne => exact if_neg hne

/-- The whole identity becomes event-form: no active state fact is written. -/
theorem flush_apply_overflow (hu : db.UniqueActive) (hf : db.facts.Fresh row)
    {conflict : ConflictSet} {other : Option Fact} :
    flush (Effect.apply env event db row (.overflow old conflict other)) =
      .ok (Effect.apply env event db row (.overflow old conflict other)) := by
  refine flush_of_unique (hu.of_current fun f hm hc ↦ ?_)
  rcases (Effect.mem_apply hf).mp hm with ⟨g, hg, rfl⟩ | rfl
  · have he := onFact_overflow_of_current hc
    rw [he] at hc ⊢
    exact ⟨g, hg, hc, rfl, rfl, rfl, rfl⟩
  · cases hc.2

theorem asOccurrence_of_active {f : Fact} {now : Timestamp} (h : f.status = .active) :
    f.asOccurrence now = f.reclassify now := if_pos h

theorem modify_overflow_none {conflict : ConflictSet} (ho : old ∈ db.facts)
    (ha : old.status = .active) :
    db.facts.modify (Effect.onFact env event (.overflow old conflict none)) =
      db.facts.update old.id (·.reclassify env.now) := by
  refine Table.modify_congr fun f hf ↦ ?_
  simp only [Effect.onFact, Option.mem_def, reduceCtorEq, false_and, exists_false, or_false,
    key_fact]
  split
  · next h => rw [asOccurrence_of_active (Db.eq_of_id_eq hf ho h ▸ ha)]
  · rfl

theorem modify_overflow_some {conflict : ConflictSet} {other : Fact} (ho : old ∈ db.facts)
    (ha : old.status = .active) (hm : other ∈ db.facts) (hne : old.id ≠ other.id) :
    db.facts.modify (Effect.onFact env event (.overflow old conflict (some other))) =
      (db.facts.update old.id (·.reclassify env.now)).update other.id
        (if other.status = .active then (·.reclassify env.now)
          else fun f ↦ (f.reclassify env.now).moveTo .active env.now) := by
  refine .trans (Table.modify_congr fun f hf ↦ ?_) (Table.update_update_of_ne (fun f _ ↦
    f.reclassify_id env.now) (fun f _ ↦ by split <;> rfl) hne db.facts).symm
  simp only [Effect.onFact, Option.mem_def, Option.some.injEq, exists_eq_left', key_fact]
  by_cases h : f.id = old.id
  · rw [if_pos (.inl h), if_pos h, asOccurrence_of_active (Db.eq_of_id_eq hf ho h ▸ ha)]
  · by_cases h' : f.id = other.id
    · obtain rfl := Db.eq_of_id_eq hf hm h'
      rw [if_pos (.inr h'), if_neg h, if_pos h', Fact.asOccurrence]
      split <;> rfl
    · rw [if_neg (not_or.mpr ⟨h, h'⟩), if_neg h, if_neg h']

/-- The new row is reclassified and activated, after the fact it contradicts. -/
theorem activate_reclassified (hu : db.UniqueActive) (hf : db.facts.Fresh row)
    (hs : row.status = .candidate) (hne : row.id ≠ old.id) :
    transitionFactStatus env.now (((db.insertFact row).updateFact old.id
      (·.reclassify env.now)).updateFact row.id (·.reclassify env.now)) row.id .active =
      .ok ((db.updateFact old.id (·.reclassify env.now)).insertFact
        ((row.reclassify env.now).moveTo .active env.now)) := by
  have hf' : (db.updateFact old.id (·.reclassify env.now)).facts.Fresh (row.reclassify env.now) :=
    Db.fresh_updateFact (fun _ ↦ rfl) hf
  have hu₁ : (db.updateFact old.id (·.reclassify env.now)).UniqueActive :=
    hu.updateFact (fun _ ↦ rfl) fun _ _ _ h ↦ by cases h.2
  have hu' : ((db.updateFact old.id (·.reclassify env.now)).insertFact
      ((row.reclassify env.now).moveTo .active env.now)).UniqueActive :=
    hu₁.insertFact (fun b hb ↦ hf' b hb) fun h ↦ by cases h.2
  have hwrites : ((db.insertFact row).updateFact old.id (·.reclassify env.now)).updateFact row.id
      (·.reclassify env.now) =
      (db.updateFact old.id (·.reclassify env.now)).insertFact (row.reclassify env.now) := by
    rw [Db.updateFact_insertFact_of_ne ?_ hf hne,
      Db.updateFact_insertFact_self ?_ (Db.fresh_updateFact ?_ hf)]
    all_goals exact fun _ ↦ rfl
  rw [hwrites]
  exact (transitionFactStatus_row hf' hs).trans (flush_of_unique hu')

/-- The other member is reclassified next to a row of the event form, and activated unless it is
deleted. -/
theorem activate_other {other : Fact} (hu : db.UniqueActive) (hf : db.facts.Fresh row)
    (hform : row.memoryForm = .event) (hm : db.fact? other.id = some other)
    (hrow : row.id ≠ other.id) (hna : other.status ≠ .active) :
    transitionFactStatus env.now ((db.insertFact row).updateFact other.id (·.reclassify env.now))
        other.id .active =
      if other.status = .deleted then .error (.illegalTransition .deleted .active)
      else .ok ((db.updateFact other.id fun f ↦
        (f.reclassify env.now).moveTo .active env.now).insertFact row) := by
  have hf' : (db.updateFact other.id (·.reclassify env.now)).facts.Fresh row :=
    Db.fresh_updateFact (fun _ ↦ rfl) hf
  have hget : ((db.updateFact other.id (·.reclassify env.now)).insertFact row).fact? other.id =
      some (other.reclassify env.now) := by
    rw [Db.fact?_insertFact_of_ne hf' hrow, Db.fact?_updateFact (·.reclassify_id env.now),
      if_pos rfl, hm, Option.map_some]
  rw [Db.updateFact_insertFact_of_ne (·.reclassify_id env.now) hf hrow]
  by_cases hd : other.status = .deleted
  · rw [if_pos hd, transitionFactStatus_illegal hget
      (by simp [Fact.reclassify, hd, allowedTransitions])]
    simp [Fact.reclassify, hd]
  · have hallowed : .active ∈ allowedTransitions (other.reclassify env.now).status := by
      change _ ∈ allowedTransitions other.status
      cases hos : other.status <;> simp_all [allowedTransitions]
    have huo : (db.updateFact other.id
        (fun f ↦ (f.reclassify env.now).moveTo .active env.now)).UniqueActive :=
      hu.updateFact (fun _ ↦ rfl) fun _ _ _ h ↦ by cases h.2
    have hfo : (db.updateFact other.id
        (fun f ↦ (f.reclassify env.now).moveTo .active env.now)).facts.Fresh row :=
      Db.fresh_updateFact (fun _ ↦ rfl) hf
    have hun : ((db.updateFact other.id
        (fun f ↦ (f.reclassify env.now).moveTo .active env.now)).insertFact row).UniqueActive :=
      huo.insertFact hfo fun h ↦ by cases hform.symm.trans h.2
    rw [if_neg hd, transitionFactStatus_eq hget hallowed,
      Db.updateFact_insertFact_of_ne (Fact.moveTo_id · .active env.now) hf' hrow,
      Db.updateFact_updateFact_self (·.reclassify_id env.now) (Fact.moveTo_id · .active env.now),
      flush_of_unique hun]

theorem reclassifyOverflow_eq (hu : db.UniqueActive) (hf : db.facts.Fresh row)
    (hs : row.status = .candidate) (ho : old ∈ db.facts) (ha : old.status = .active)
    {conflict : ConflictSet} {otherId : FactId}
    (hother : conflict.factIds.find? (· ≠ old.id) = some otherId) (hrow : row.id ≠ otherId) :
    reclassifyOverflow env (db.insertFact row) row.id old conflict result =
      match db.fact? otherId with
      | none =>
        .ok (Effect.apply env event db row (.overflow old conflict none),
          { result with
            created := result.created + 1
            reclassifiedEvent := result.reclassifiedEvent + 1 })
      | some other =>
        if other.status = .deleted then .error (.illegalTransition .deleted .active)
        else
          .ok (Effect.apply env event db row (.overflow old conflict (some other)),
            { result with
              created := result.created + 1
              reclassifiedEvent := result.reclassifiedEvent + 1 }) := by
  have hne : row.id ≠ old.id := fun h ↦ hf old ho h.symm
  have hoo : otherId ≠ old.id := by simpa using List.find?_some hother
  simp only [reclassifyOverflow, hother, activate_reclassified hu hf hs hne,
    Db.fact?_insertFact_of_ne hf hrow, ok_bind]
  cases hg : db.fact? otherId with
  | none =>
    simp only [Effect.apply, modify_overflow_none ho ha]
    rfl
  | some other =>
    obtain ⟨hm, rfl⟩ := Db.fact?_eq_some_iff.mp hg
    have hu₁ : (db.updateFact old.id (·.reclassify env.now)).UniqueActive :=
      hu.updateFact (fun _ ↦ rfl) fun _ _ _ h ↦ by cases h.2
    have hf₁ : (db.updateFact old.id (·.reclassify env.now)).facts.Fresh
        ((row.reclassify env.now).moveTo .active env.now) :=
      Db.fresh_updateFact (fun _ ↦ rfl) fun b hb ↦ hf b hb
    have hm₁ : (db.updateFact old.id (·.reclassify env.now)).fact? other.id = some other := by
      rw [Db.fact?_updateFact (·.reclassify_id env.now), if_neg hoo, hg]
    by_cases hoa : other.status = .active
    · simp only [hoa, Effect.apply, modify_overflow_some ho ha hm (Ne.symm hoo), if_true,
        Db.updateFact_insertFact_of_ne (·.reclassify_id env.now) hf₁ hrow, reduceCtorEq]
      rfl
    · simp only [activate_other hu₁ hf₁ rfl hm₁ hrow hoa, if_pos hoa]
      by_cases hd : other.status = .deleted
      · rw [if_pos hd, if_pos hd]
        rfl
      · rw [if_neg hd, if_neg hd]
        simp only [Effect.apply, modify_overflow_some ho ha hm (Ne.symm hoo), hoa, if_false]
        rfl

theorem contradict_eq (hu : db.UniqueActive) (hf : db.facts.Fresh row)
    (hs : row.status = .candidate) (ho : old ∈ db.facts) (ha : old.status = .active)
    (hset : ∀ s ∈ db.conflictSets, row.id ∉ s.factIds) {candidate : Candidate} :
    contradict env (db.insertFact row) row.id old event result =
      contradictionOf db event old >>= fun e ↦
        flush (e.apply env event db row) >>= fun db' ↦ .ok (db', e.count result candidate) := by
  have hopen : (db.insertFact row).openConflictSet event.scope old.id =
      db.openConflictSet event.scope old.id := rfl
  simp only [contradictionOf, contradict, hopen]
  cases hc : db.openConflictSet event.scope old.id with
  | none =>
    rw [ok_bind, flush_apply_candidate hu hf hs (fun _ ↦ rfl) rfl, apply_of_onFact_eq fun _ ↦ rfl]
    rfl
  | some conflict =>
    dsimp only
    split
    · cases hfind : conflict.factIds.find? (· ≠ old.id) with
      | none =>
        simp only [reclassifyOverflow, hfind]
        rfl
      | some otherId =>
        have hrow : row.id ≠ otherId := fun h ↦
          hset conflict (Db.openConflictSet_some hc).1 (h ▸ List.mem_of_find?_eq_some hfind)
        rw [reclassifyOverflow_eq hu hf hs ho ha hfind hrow]
        dsimp only
        cases db.fact? otherId with
        | none => rw [ok_bind, flush_apply_overflow hu hf]; rfl
        | some other =>
          dsimp only
          split
          · rfl
          · rw [ok_bind, flush_apply_overflow hu hf]; rfl
    · rw [ok_bind, flush_apply_candidate hu hf hs (fun _ ↦ rfl) rfl, apply_of_onFact_eq fun _ ↦ rfl]
      rfl

/-- The activation branches, taken together. -/
theorem activateCandidate_eq (hu : db.UniqueActive) (hf : db.facts.Fresh row)
    (hs : row.status = .candidate) {existing : Option Fact}
    (hx : ∀ old ∈ existing, old ∈ db.facts ∧ old.status = .active)
    (hset : ∀ s ∈ db.conflictSets, row.id ∉ s.factIds) {candidate : Candidate}
    {memoryForm : MemoryForm} (hheld : ¬ HeldBack event existing) :
    activateCandidate env (db.insertFact row) row.id candidate existing memoryForm event result =
      effectOf db candidate existing memoryForm event >>= fun e ↦
        flush (e.apply env event db row) >>= fun db' ↦ .ok (db', e.count result candidate) := by
  unfold activateCandidate
  cases existing with
  | none =>
    simp only [effectOf, if_neg hheld, ok_bind, Effect.count]
    split
    · exact supersedeExisting_none hf hs
    · simp only [ite_self]
      exact activate_eq hf hs
  | some old =>
    obtain ⟨ho, ha⟩ := hx old rfl
    by_cases hact : candidate.action = .supersede
    · rw [if_pos hact, effectOf, if_neg hheld]
      simp only [if_pos hact]
      exact supersedeExisting_some hu hf hs ho ha
    · rw [if_neg hact]
      by_cases hform : memoryForm = .event
      · rw [if_pos hform, effectOf, if_neg hheld]
        simp only [if_neg hact, if_pos (Or.inl hform), ok_bind, Effect.count]
        exact activate_eq hf hs
      · rw [if_neg hform]
        dsimp only
        by_cases hv : canonical old.value = canonical candidate.value
        · rw [if_neg (not_not.mpr hv), effectOf, if_neg hheld]
          simp only [if_neg hact, if_pos (Or.inr hv), ok_bind, Effect.count]
          exact activate_eq hf hs
        · rw [if_pos hv, effectOf, if_neg hheld]
          simp only [if_neg hact, if_neg (not_or.mpr ⟨hform, hv⟩)]
          exact contradict_eq hu hf hs ho ha hset

end Branches

theorem candidateRow_fresh {env : Env} {db : Db} {candidate : Candidate} {existing : Option Fact}
    {embedding : Embedding} {event : Event} {row : Fact}
    (h : candidateRow env db candidate existing embedding event = .ok row) :
    db.facts.Fresh row := by
  obtain ⟨classes, -, h⟩ := bind_eq_ok.mp h
  obtain ⟨draft, -, h⟩ := bind_eq_ok.mp h
  cases h
  exact fun f hf ↦ db.freshFactId_ne event.id hf

theorem draftOf_memoryForm {env : Env} {candidate : Candidate} {classes : Classes} {event : Event}
    {value : Dict} {embedding : Embedding} {draft : FactDraft}
    (h : draftOf env candidate classes event value embedding = .ok draft) :
    draft.memoryForm = classes.memoryForm := by
  obtain ⟨_, -, h⟩ := bind_eq_ok.mp h
  cases h
  rfl

/-- **Deciding and committing.**  On a ledger that meets the partial unique index, adjudicating a
candidate is: compute the row, decide its effect, apply the effect, and flush once. -/
theorem adjudicate_eq {env : Env} {db : Db} {candidate : Candidate} {existing : Option Fact}
    {embedding : Embedding} {event : Event} {result : JobResult} (hu : db.UniqueActive)
    (hx : ∀ old ∈ existing, old ∈ db.facts ∧ old.status = .active) :
    adjudicate env db candidate existing embedding event result =
      candidateRow env db candidate existing embedding event >>= fun row ↦
        effectOf db candidate existing row.memoryForm event >>= fun e ↦
          flush (e.apply env event db row) >>= fun db' ↦ .ok (db', e.count result candidate) := by
  rw [adjudicate, candidateRow, bind_assoc]
  cases hclasses : classesOf env candidate existing event with
  | error _ => rfl
  | ok classes =>
    simp only [ok_bind, bind_assoc]
    by_cases hheld : HeldBack event existing
    · simp only [if_pos hheld, storedValue, holdCandidate, effectOf, ok_bind]
      congr 1
      funext draft
      have hf : db.facts.Fresh (draft.row (db.freshFactId event.id) env.now) :=
        fun f hf ↦ db.freshFactId_ne event.id hf
      rw [pure_bind, flush_apply_candidate hu hf rfl (fun _ ↦ rfl) rfl,
        apply_of_onFact_eq fun _ ↦ rfl]
      rfl
    · simp only [if_neg hheld, storedValue, writeCandidate]
      cases hdraft : draftOf env candidate classes event (carryForward candidate existing)
          embedding with
      | error _ => rfl
      | ok draft =>
        have hf : db.facts.Fresh (draft.row (db.freshFactId event.id) env.now) :=
          fun f hf ↦ db.freshFactId_ne event.id hf
        have hform : (draft.row (db.freshFactId event.id) env.now).memoryForm =
            classes.memoryForm := draftOf_memoryForm hdraft
        simp only [ok_bind, pure_bind, hform]
        exact activateCandidate_eq hu hf rfl hx (fun s hs ↦ db.freshFactId_notMem_set event.id hs) hheld

end Haki
