import Haki.System
import Mathlib.Logic.Relation

/-!
# Runs, write by write

An operation is a transaction, but a job applies many candidates in it.  Here a
run is taken apart into its writes: the application of one candidate, one other
operation, or a change to events and traces.  `Op.exec_steps` says that every
operation is a sequence of writes, so what holds of every `Written` ledger
holds of every reachable one, and of those in between.
-/

namespace Haki

open Data Control Relation

/-- One write of a run. -/
inductive Write where
  /-- Events are captured or indexed, or a packet is journaled. -/
  | frame (events : Table Event) (traces : List ContextTrace)
  /-- One candidate is applied. -/
  | candidate (now : Timestamp) (event : Event) (c : Candidate)
  /-- A resolution, forget or feedback. -/
  | other (op : Op)

namespace Write

/-- The write leads from one ledger to another. -/
inductive Does (env : Env) (db : Db) : Write → Db → Prop where
  | frame (events : Table Event) (traces : List ContextTrace) :
      Does env db (.frame events traces) { db with events := events, contextTraces := traces }
  | candidate {now : Timestamp} {event : Event} {c : Candidate} {result result' : JobResult}
      {db' : Db} (h : applyCandidate (env.at now) db c (candidateEmbedding (env.at now) c) event
        result = .ok (db', result')) : Does env db (.candidate now event c) db'
  | other {op : Op} {db' : Db} (hop : ¬ op.IsConsolidation) (h : op.exec env db = .ok db') :
      Does env db (.other op) db'

/-- A candidate meets `C`, an operation meets `O`. -/
def Meets (env : Env) (C : Env → Event → Db → Candidate → Prop) (O : Db → Op → Prop) (db : Db) :
    Write → Prop
  | .frame _ _ => True
  | .candidate now event c => C (env.at now) event db c
  | .other op => O db op

/-- The operations are of an allowed kind. -/
def Allowed (allowed : Op → Prop) (_ : Db) : Write → Prop
  | .other op => allowed op
  | _ => True

end Write

/-- A write that meets `K`. -/
def Step (env : Env) (K : Db → Write → Prop) (db db' : Db) : Prop :=
  ∃ w, K db w ∧ Write.Does env db w db'

/-- The ledgers that writes meeting `K` lead to. -/
def Written (env : Env) (K : Db → Write → Prop) (db : Db) : Prop :=
  ReflTransGen (Step env K) .empty db

variable {env : Env} {C : Env → Event → Db → Candidate → Prop} {O : Db → Op → Prop}
  {allowed : Op → Prop} {I : Db → Prop} {db db' : Db}

/-- An operation is a sequence of writes. -/
theorem Op.exec_steps {op : Op} (hC : op.Meets env C db) (hO : ¬ op.IsConsolidation → O db op)
    (h : op.exec env db = .ok db') :
    ReflTransGen (Step env (Write.Meets env C O)) db db' := by
  cases op with
  | capture event =>
    cases h
    exact .single ⟨.frame _ _, trivial, .frame _ _⟩
  | serve trace =>
    cases h
    exact .single ⟨.frame _ _, trivial, .frame _ _⟩
  | consolidate now extract eventIds only =>
    obtain ⟨state, hjob, rfl⟩ := consolidate_eq_ok h
    refine processJob_invariant (I := fun db' ↦ ReflTransGen (Step env (Write.Meets env C O)) db db')
      (fun db' events hI ↦ hI.tail ⟨.frame events db'.contextTraces, trivial,
        .frame _ _⟩)
      (fun event db₁ c _ _ _ hI hC h ↦ hI.tail ⟨.candidate now event c, hC, .candidate h⟩) .refl hC
      hjob
  | resolve | forgetFact | forgetSubject | feedback =>
    exact .single ⟨.other _, hO id, .other id h⟩

/-- Every state of a run is written. -/
theorem Reachable.written (h : Reachable env allowed db) :
    Written env (Write.Allowed allowed) db := by
  obtain ⟨ops, hops, rfl⟩ := h
  suffices ∀ db, Written env (Write.Allowed allowed) db →
      Written env (Write.Allowed allowed) (runOps env db ops) from this .empty .refl
  induction ops with
  | nil => exact fun db h ↦ h
  | cons op ops ih =>
    intro db h
    obtain ⟨hop, hops⟩ := List.forall_mem_cons.mp hops
    refine ih hops _ ?_
    rw [Op.run]
    split
    · next db' he =>
      refine h.trans (ReflTransGen.mono ?_ db db' (Op.exec_steps (op.meets_true env db)
        (O := fun _ op ↦ allowed op) (fun _ ↦ hop) he))
      rintro db₁ db₂ ⟨w, hw, hdoes⟩
      refine ⟨w, ?_, hdoes⟩
      cases w with
      | other => exact hw
      | _ => trivial
    · exact h

/-- A write keeps the index. -/
theorem Write.Does.unique {w : Write} (h : w.Does env db db') (hu : db.UniqueActive) :
    db'.UniqueActive := by
  cases h with
  | frame => exact hu
  | candidate h => exact applyCandidate_unique hu h
  | other _ h => exact Op.exec_unique hu h

/-- Every written ledger meets the partial unique index. -/
theorem Written.unique {K : Db → Write → Prop} (h : Written env K db) : db.UniqueActive := by
  induction h with
  | refl => exact fun _ hf ↦ absurd hf List.not_mem_nil
  | tail _ hstep ih =>
    obtain ⟨w, -, hdoes⟩ := hstep
    exact hdoes.unique ih

/-- **Write rule.**  An invariant of runs without a condition on candidates holds in every written
ledger. -/
theorem Invariant.written (hI : Invariant env allowed (fun _ _ _ _ ↦ True) I)
    (h : Written env (Write.Allowed allowed) db) : I db := by
  induction h with
  | refl => exact hI.empty
  | tail hdb hstep ih =>
    obtain ⟨w, hw, hdoes⟩ := hstep
    have hu := Written.unique hdb
    cases hdoes with
    | frame => exact hI.frame _ _ _ ih
    | candidate h => exact hI.candidate _ _ _ _ _ _ _ hu ih trivial h
    | other hop h => exact hI.other _ _ _ hop hw hu ih h

end Haki
