import Haki.Ledger.History
import Haki.Sample

/-!
# The ledger is append-only

Along every run of requests, from every reachable memory: a fact goes on to
state what it stated, its sources are only added to and counted, its version
counts the edges of the lifecycle graph it has taken, and nothing happens to it
after its deletion; a conflict set only gains members, and nothing happens to it
after it is closed.  The one request that removes rows is the erasure of their
subject.
-/

namespace Haki

open Data Control

variable {env : Env} {m m' : Memory}

/-! ## Requests -/

/-- A successful job. -/
theorem Db.Evolves.processJob {extract : Extractor} {eventIds : List EventId}
    {only : Option (List EventId)} {db : Db} {state : Db × JobResult} (hu : db.UniqueActive)
    (h : Haki.processJob env extract db eventIds only = .ok state) : db.Evolves state.1 :=
  (processJob_invariant (I := fun db' ↦ db'.UniqueActive ∧ db.Evolves db')
    (C := fun _ _ _ ↦ True) (fun _ _ hI ↦ ⟨hI.1, hI.2.facts, hI.2.conflictSets⟩)
    (fun _ _ _ _ _ _ hI _ h ↦ ⟨applyCandidate_unique hI.1 h, hI.2.trans (.applyCandidate hI.1 h)⟩)
    ⟨hu, .refl db⟩
    (foldMeets_of_forall (fun _ _ _ _ ↦ foldMeets_of_forall (fun _ _ _ ↦ trivial) _ _) _ _) h).2

/-- A merge moves rows and leaves them as they are. -/
theorem Db.Evolves.rescoped (db : Db) (projectId source target : String) :
    db.Evolves (db.rescoped (Scope.merge projectId source target)) := by
  have hproject (s : Scope) : (Scope.merge projectId source target s).projectId = s.projectId := by
    rw [Scope.merge, rename]
    split
    · next h => exact (congrArg Scope.projectId h).symm
    · rfl
  exact ⟨.modify (fun _ ↦ rfl) fun f _ ↦ .of_scope (hproject f.scope),
    .modify (fun _ ↦ rfl) fun s _ ↦ .of_scope (hproject s.scope)⟩

/-- Every request but the erasure of a subject. -/
theorem Request.exec_evolves {request : Request} (hu : m.ledger.UniqueActive)
    (herase : ∀ now scope, request ≠ .forgetSubject now scope .delete)
    (h : request.exec env m = .ok m') : m.ledger.Evolves m'.ledger := by
  have same : m.ledger.Evolves m.ledger := .refl m.ledger
  cases request with
  | capture event subjectAlias =>
    obtain ⟨_, _, -, -, rfl⟩ := Memory.capture_eq_ok h
    exact ⟨same.facts, same.conflictSets⟩
  | consolidate now extract eventIds only =>
    obtain ⟨⟨ledger, result⟩, hjob, h⟩ := bind_eq_ok.mp h
    cases h
    exact .processJob hu (mapError_eq_ok.mp hjob)
  | resolveConflict now projectId id keep =>
    obtain ⟨ledger, hledger, h⟩ := bind_eq_ok.mp h
    cases h
    exact .resolveConflict (mapError_eq_ok.mp hledger)
  | forgetFact now projectId id mode =>
    obtain ⟨ledger, hledger, h⟩ := bind_eq_ok.mp h
    cases h
    exact .forgetFact (mapError_eq_ok.mp hledger)
  | forgetSubject now scope mode =>
    cases mode with
    | delete => exact absurd rfl (herase now scope)
    | disable =>
      obtain ⟨ledger, hledger, h⟩ := bind_eq_ok.mp h
      cases h
      exact .disableSubject (mapError_eq_ok.mp hledger)
  | feedback now projectId target rating =>
    obtain ⟨ledger, hledger, h⟩ := bind_eq_ok.mp h
    cases h
    cases target with
    | trace id =>
      cases mapError_eq_ok.mp hledger
      exact same
    | fact id => exact .submitFeedback (mapError_eq_ok.mp hledger)
  | context trace =>
    cases h
    exact ⟨same.facts, same.conflictSets⟩
  | resolveAlias projectId aliasKind aliasValue canonicalSubjectId =>
    obtain ⟨_, -, h⟩ := bind_eq_ok.mp h
    cases h
    exact same
  | mergeSubjects projectId source target =>
    obtain ⟨⟨m', receipt⟩, hm, rfl⟩ := map_eq_ok.mp h
    obtain ⟨-, -, -, rfl⟩ := Memory.mergeSubjects_eq_ok hm
    exact .rescoped m.ledger projectId source target

/-- A request revises the rows, or erases a subject. -/
theorem Request.run_evolves (request : Request) (hu : m.ledger.UniqueActive) :
    m.ledger.Evolves (request.run env m).ledger ∨
      ∃ now scope, request = .forgetSubject now scope .delete ∧
        (request.run env m).ledger = deleteSubject m.ledger scope := by
  by_cases herase : ∃ now scope, request = .forgetSubject now scope .delete
  · obtain ⟨now, scope, rfl⟩ := herase
    exact .inr ⟨now, scope, rfl, rfl⟩
  · refine .inl ?_
    rw [Request.run]
    split
    · next h => exact Request.exec_evolves hu (fun now scope heq ↦ herase ⟨now, scope, heq⟩) h
    · exact .refl m.ledger

/-! ## Runs -/

section

variable {α κ : Type} [Keyed α κ] [Scoped α] (rows : Memory → Table α) (R : α → α → Prop)

/-- The row is there after the requests, or one of them found it and erased its subject. -/
def KeptOrErased (env : Env) (m : Memory) (requests : List Request) (a : α) : Prop :=
  (∃ b ∈ rows (runRequests env m requests), R a b) ∨
    ∃ before now scope after, requests = before ++ .forgetSubject now scope .delete :: after ∧
      ∃ b ∈ rows (runRequests env m before), R a b ∧ Scoped.scope b = scope

variable {rows R}

/-- What single requests keep or erase, runs keep or erase. -/
theorem keptOrErased_of_run (hrefl : ∀ a, R a a) (htrans : ∀ a b c, R a b → R b c → R a c)
    (hrun : ∀ (m : Memory) (request : Request), m.ledger.UniqueActive →
      (∀ a ∈ rows m, ∃ b ∈ rows (request.run env m), R a b) ∨
        ∃ now scope, request = .forgetSubject now scope .delete ∧
          ∀ a ∈ rows m, Scoped.scope a ≠ scope → a ∈ rows (request.run env m))
    (hu : m.ledger.UniqueActive) (requests : List Request) {a : α} (ha : a ∈ rows m) :
    KeptOrErased rows R env m requests a := by
  induction requests generalizing m a with
  | nil => exact .inl ⟨a, ha, hrefl a⟩
  | cons request requests ih =>
    have hu' := request.run_unique env hu
    have later {b : α} (hb : b ∈ rows (request.run env m)) (hab : R a b) :
        KeptOrErased rows R env m (request :: requests) a := by
      rcases ih hu' hb with ⟨c, hc, hbc⟩ | ⟨before, now, scope, after, rfl, c, hc, hbc, hscope⟩
      · exact .inl ⟨c, hc, htrans a b c hab hbc⟩
      · exact .inr ⟨request :: before, now, scope, after, rfl, c, hc, htrans a b c hab hbc, hscope⟩
    rcases hrun m request hu with hkept | ⟨now, scope, rfl, herase⟩
    · obtain ⟨b, hb, hab⟩ := hkept a ha
      exact later hb hab
    · by_cases hscope : Scoped.scope a = scope
      · exact .inr ⟨[], now, scope, requests, rfl, a, ha, hrefl a, hscope⟩
      · exact later (herase a ha hscope) (hrefl a)

end

/-- What a run of requests does to the facts and conflict sets that are there, and where those come
from that are there afterwards. -/
structure AppendOnly (env : Env) (m : Memory) (requests : List Request) : Prop where
  facts : ∀ f ∈ m.ledger.facts, KeptOrErased (·.ledger.facts) Fact.Revises env m requests f
  conflictSets : ∀ s ∈ m.ledger.conflictSets,
    KeptOrErased (·.ledger.conflictSets) ConflictSet.Revises env m requests s
  drafted : m.ledger.facts.Descends Fact.Revises Fact.Drafted
    (runRequests env m requests).ledger.facts
  opened : m.ledger.conflictSets.Descends ConflictSet.Revises ConflictSet.Opened
    (runRequests env m requests).ledger.conflictSets

/-- Where the rows of a ledger come from. -/
def Db.Descends (db db' : Db) : Prop :=
  db.facts.Descends Fact.Revises Fact.Drafted db'.facts ∧
    db.conflictSets.Descends ConflictSet.Revises ConflictSet.Opened db'.conflictSets

theorem Request.run_descends (request : Request) (hu : m.ledger.UniqueActive) :
    m.ledger.Descends (request.run env m).ledger := by
  rcases request.run_evolves hu with h | ⟨now, scope, -, h⟩
  · exact ⟨h.facts.born, h.conflictSets.born⟩
  · rw [h]
    exact ⟨fun f hf ↦ .inl ⟨f, (Table.mem_filter.mp hf).1, .refl f⟩,
      fun s hs ↦ .inl ⟨s, (Table.mem_filter.mp hs).1, .refl s⟩⟩

theorem runRequests_descends (hu : m.ledger.UniqueActive) (requests : List Request) :
    m.ledger.Descends (runRequests env m requests).ledger := by
  induction requests generalizing m with
  | nil => exact ⟨fun f hf ↦ .inl ⟨f, hf, .refl f⟩, fun s hs ↦ .inl ⟨s, hs, .refl s⟩⟩
  | cons request requests ih =>
    obtain ⟨hfacts, hsets⟩ : m.ledger.Descends (request.run env m).ledger := request.run_descends hu
    obtain ⟨hfacts', hsets'⟩ := ih (request.run_unique env hu)
    exact ⟨hfacts.trans (fun _ _ _ ↦ .trans) hfacts', hsets.trans (fun _ _ _ ↦ .trans) hsets'⟩

/-- **The ledger is append-only** along every run of requests: up to the erasure of whole subjects,
every fact and every conflict set is still there as a revision of what it was, and what is new was
drafted or opened in between. -/
theorem runRequests_appendOnly (hm : m.Reachable env) (requests : List Request) :
    AppendOnly env m requests where
  facts f hf := by
    refine keptOrErased_of_run .refl (fun _ _ _ ↦ .trans) (fun m request hu ↦ ?_) hm.unique requests hf
    refine (request.run_evolves hu).imp (fun h ↦ h.facts.kept) ?_
    rintro ⟨now, scope, rfl, h⟩
    refine ⟨now, scope, rfl, fun f hf hne ↦ ?_⟩
    rw [h]
    exact Table.mem_filter.mpr ⟨hf, decide_eq_true hne⟩
  conflictSets s hs := by
    refine keptOrErased_of_run .refl (fun _ _ _ ↦ .trans) (fun m request hu ↦ ?_) hm.unique requests hs
    refine (request.run_evolves hu).imp (fun h ↦ h.conflictSets.kept) ?_
    rintro ⟨now, scope, rfl, h⟩
    refine ⟨now, scope, rfl, fun s hs hne ↦ ?_⟩
    rw [h]
    exact Table.mem_filter.mpr ⟨hs, decide_eq_true hne⟩
  drafted := (runRequests_descends hm.unique requests).1
  opened := (runRequests_descends hm.unique requests).2

namespace Sample

/-- `city` is `Lyon`. -/
def settling : List Request :=
  [.capture (event 1 .trusted) none, .consolidate 1 (always [create "city" "Lyon"]) [1] none]

/-- Then it is `Nice`, and what it was is forgotten. -/
def moving : List Request :=
  [.capture (event 2 .trusted) none, .consolidate 2 (always [supersede "city" "Nice"]) [2] none,
    .forgetFact 3 "project" ⟨1, 0⟩ .delete]

end Sample

theorem runRequests_appendOnly_moved :
    AppendOnly .sample (runRequests .sample .empty Sample.settling) Sample.moving :=
  runRequests_appendOnly ⟨Sample.settling, rfl⟩ Sample.moving

/-- The forgotten fact was active, superseded and deleted, in that order. -/
example : (runRequests .sample .empty (Sample.settling ++ Sample.moving)).ledger.facts.rows.map
    (fun f ↦ (f.status, f.version)) = [(.deleted, 4), (.active, 2)] := by
  decide

end Haki
