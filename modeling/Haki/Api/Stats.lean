import Haki.Consolidator.Apply
import Mathlib.Algebra.GroupWithZero.Nat

/-!
# The metrics of the health endpoint

`GET /v1/stats/health` counts the served packets that contain a fact which is
superseded now and, by the moments it reconstructs, was so when the packet was
served.  It also divides the rejected candidates of the consolidation jobs by
`candidates_total`, which is meant to be all of their candidates.
-/

namespace Haki

open Data

/-- `superseded_moments`, before the minimum is taken: when a row pointing at the fact was recorded,
and when a resolved set that lists it was resolved. -/
def Db.supersededMoments (db : Db) (projectId : String) (id : FactId) : List Timestamp :=
  ((db.facts.rows.filter fun s ↦ s.scope.projectId = projectId ∧ s.supersedesId = some id).map
    Fact.recordedFrom) ++
  (db.conflictSets.rows.filter fun c ↦
    c.scope.projectId = projectId ∧ c.status = .resolved ∧ id ∈ c.factIds).filterMap
      ConflictSet.resolvedAt

/-- `superseded_at`. -/
def Db.supersededAt (db : Db) (projectId : String) (id : FactId) : Option Timestamp :=
  (db.supersededMoments projectId id).min?

/-- The packet joins a fact that is superseded, since its serving or before. -/
def Db.Leaks (db : Db) (projectId : String) (trace : ContextTrace) : Prop :=
  ∃ id ∈ trace.factIds, (∃ f ∈ db.facts, f.id = id ∧ f.status = .superseded) ∧
    ∃ moment ∈ db.supersededAt projectId id, moment ≤ trace.createdAt

instance (db : Db) (projectId : String) (trace : ContextTrace) :
    Decidable (db.Leaks projectId trace) :=
  inferInstanceAs (Decidable (∃ id ∈ trace.factIds, (∃ f ∈ db.facts, _ ∧ _) ∧ ∃ moment ∈ _, _))

/-- The packets counted in `leaked_packets`. -/
def Db.leakedPackets (db : Db) (projectId : String) (subjectId : Option String)
    (since : Timestamp) : List ContextTrace :=
  db.contextTraces.filter fun trace ↦
    trace.scope.projectId = projectId ∧ since ≤ trace.createdAt ∧
      (∀ s ∈ subjectId, s ≠ "" → trace.scope.subjectId = s) ∧ db.Leaks projectId trace

/-! ## Write rejections -/

/-- The candidates a job reports, in the six counters that are added up. -/
def JobResult.candidates (r : JobResult) : Nat :=
  r.created + r.conflicts + r.duplicates + r.reinforced + r.quarantined + r.rejected

/-- `candidates_total`, over the results of the jobs in question. -/
def candidatesTotal (results : List JobResult) : Nat := (results.map JobResult.candidates).sum

/-! ## Moments -/

section

variable {db : Db} {projectId : String} {id : FactId} {moment : Timestamp}

/-- Where a moment comes from. -/
theorem mem_supersededMoments : moment ∈ db.supersededMoments projectId id ↔
    (∃ s ∈ db.facts, s.scope.projectId = projectId ∧ s.supersedesId = some id ∧
      s.recordedFrom = moment) ∨
    ∃ c ∈ db.conflictSets, c.scope.projectId = projectId ∧ c.status = .resolved ∧
      id ∈ c.factIds ∧ c.resolvedAt = some moment := by
  simp only [Db.supersededMoments, List.mem_append, List.mem_map, List.mem_filterMap,
    List.mem_filter, decide_eq_true_eq, Table.mem_rows, and_assoc]

theorem mem_of_supersededAt (h : db.supersededAt projectId id = some moment) :
    moment ∈ db.supersededMoments projectId id :=
  List.min?_mem h

end

end Haki
