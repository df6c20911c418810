import Haki.Ledger.Core

/-!
# Forget and feedback

`app.ledger.forget` and `app.ledger.feedback`: a fact or a whole subject is
disabled or erased, and a fact is disputed.  Both change the status of facts
and leave the conflict sets they are members of as they are.
-/

namespace Haki

open Data

/-- `VALID_MODES`. -/
inductive ForgetMode where
  | disable | delete
deriving DecidableEq, Repr

/-- The status a forgotten fact ends in. -/
def ForgetMode.target : ForgetMode → FactStatus
  | .disable => .disabled
  | .delete => .deleted

/-- A row kept for the audit trail, unreachable on both retrieval axes. -/
def Fact.purgeAxes (f : Fact) : Fact := { f with embedding := none, searchText := none }

@[simp] theorem Fact.purgeAxes_id (f : Fact) : f.purgeAxes.id = f.id := rfl

/-- A fact of another project is reported like an unknown one. -/
def getProjectFact (db : Db) (projectId : String) (id : FactId) : Except LedgerError Fact := do
  let fact ← getFact db id
  if fact.scope.projectId = projectId then pure fact else throw .factNotFound

/-- `_forget_fact`. -/
def forgetFact (now : Timestamp) (db : Db) (projectId : String) (id : FactId) (mode : ForgetMode) :
    Except LedgerError Db := do
  let fact ← getProjectFact db projectId id
  if fact.status = mode.target then pure db
  else do
    let db ← transitionFactStatus now db id mode.target
    pure (if mode = .delete then db.updateFact id Fact.purgeAxes else db)

/-- `_forget_subject`, mode `disable`: every active or candidate fact, one by one. -/
def disableSubject (now : Timestamp) (db : Db) (scope : Scope) : Except LedgerError Db :=
  ((db.facts.rows.filter fun f ↦ f.scope = scope ∧ (f.status = .active ∨ f.status = .candidate)).map
    Fact.id).foldlM (fun db id ↦ transitionFactStatus now db id .disabled) db

/-- `_forget_subject`, mode `delete`: the rows of the subject are gone. -/
def deleteSubject (db : Db) (scope : Scope) : Db :=
  { events := db.events.filter fun e ↦ e.scope ≠ scope
    facts := db.facts.filter fun f ↦ f.scope ≠ scope
    conflictSets := db.conflictSets.filter fun s ↦ s.scope ≠ scope
    predicateAliases := db.predicateAliases.filter fun a ↦ a.scope ≠ scope
    contextTraces := db.contextTraces.filter fun t ↦ t.scope ≠ scope }

/-- `_forget_subject`. -/
def forgetSubject (now : Timestamp) (db : Db) (scope : Scope) : ForgetMode → Except LedgerError Db
  | .disable => disableSubject now db scope
  | .delete => .ok (deleteSubject db scope)

/-- `VALID_RATINGS`. -/
inductive Rating where
  | useful | irrelevant | incorrect
deriving DecidableEq, Repr

/-- `submit_feedback` on a fact. -/
def submitFeedback (now : Timestamp) (db : Db) (projectId : String) (id : FactId)
    (rating : Rating) : Except LedgerError Db := do
  let fact ← getProjectFact db projectId id
  if rating = .incorrect ∧ .disputed ∈ allowedTransitions fact.status then
    transitionFactStatus now db fact.id .disputed
  else pure db

/-! ## What these operations do -/

section

variable {now : Timestamp} {db db' : Db} {projectId : String} {id : FactId}

theorem getProjectFact_eq_ok {f : Fact} (h : getProjectFact db projectId id = .ok f) :
    db.fact? id = some f ∧ f.scope.projectId = projectId := by
  obtain ⟨g, hg, h⟩ := Control.bind_eq_ok.mp h
  split at h
  · next hp =>
    cases h
    exact ⟨getFact_eq_ok.mp hg, hp⟩
  · cases h

/-- A forgotten fact. -/
def Fact.forgotten (mode : ForgetMode) (now : Timestamp) (f : Fact) : Fact :=
  if mode = .delete then (f.moveTo mode.target now).purgeAxes else f.moveTo mode.target now

@[simp] theorem Fact.forgotten_id (mode : ForgetMode) (now : Timestamp) (f : Fact) :
    (f.forgotten mode now).id = f.id := by
  rw [Fact.forgotten]
  split <;> rfl

@[simp] theorem Fact.forgotten_status (mode : ForgetMode) (now : Timestamp) (f : Fact) :
    (f.forgotten mode now).status = mode.target := by
  rw [Fact.forgotten]
  split <;> rfl

/-- Forgetting a fact changes nothing, or that one fact. -/
theorem forgetFact_eq_ok {mode : ForgetMode} (h : forgetFact now db projectId id mode = .ok db') :
    db' = db ∨ (∃ f, db.fact? id = some f) ∧ db' = db.updateFact id (·.forgotten mode now) := by
  obtain ⟨f, hf, h⟩ := Control.bind_eq_ok.mp h
  split at h
  · cases h
    exact .inl rfl
  · obtain ⟨db₁, h₁, h⟩ := Control.bind_eq_ok.mp h
    obtain ⟨-, -, -, rfl, -⟩ := transitionFactStatus_eq_ok h₁
    refine .inr ⟨⟨f, (getProjectFact_eq_ok hf).1⟩, ?_⟩
    cases h
    cases mode with
    | disable => rfl
    | delete =>
      rw [if_pos rfl, Db.updateFact_updateFact_self (Fact.moveTo_id · _ now) Fact.purgeAxes_id]
      rfl

/-- Feedback on a fact changes nothing, or disputes that one fact. -/
theorem submitFeedback_eq_ok {rating : Rating}
    (h : submitFeedback now db projectId id rating = .ok db') :
    db' = db ∨ (rating = .incorrect ∧ ∃ f, db.fact? id = some f ∧ f.scope.projectId = projectId ∧
        .disputed ∈ allowedTransitions f.status) ∧
      db' = db.updateFact id (·.moveTo .disputed now) := by
  obtain ⟨f, hf, h⟩ := Control.bind_eq_ok.mp h
  split at h
  · next hrating =>
    obtain ⟨-, -, -, rfl, -⟩ := transitionFactStatus_eq_ok h
    obtain ⟨hget, hproject⟩ := getProjectFact_eq_ok hf
    obtain rfl := Db.id_of_fact? hget
    exact .inr ⟨⟨hrating.1, f, hget, hproject, hrating.2⟩, rfl⟩
  · cases h
    exact .inl rfl

end

end Haki
