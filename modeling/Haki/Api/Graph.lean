import Haki.Context.Cost
import Haki.Models
import Mathlib.Data.List.Sort

/-!
# The memory graph

`build_subject_graph`: the facts of a subject and the events they were derived
from are nodes, and the foreign keys between them are edges (`app.graph`).
-/

namespace Haki

open Data

/-- How the graph prints what it shows. -/
structure GraphPrinter where
  /-- `str` of the primary key of a fact. -/
  strFactId : FactId → String
  /-- `str` of the primary key of an event. -/
  strEventId : EventId → String
  /-- `str` of a decoded JSON value. -/
  strJson : PyJson → String
  /-- `datetime.isoformat`. -/
  isoformat : Timestamp → String

/-- `GraphNode.kind`. -/
inductive NodeKind where
  | subject | fact | event
deriving DecidableEq, Repr

/-- `GraphEdge.kind`. -/
inductive EdgeKind where
  | hasFact | supersedes | derivedFrom
deriving DecidableEq, Repr

/-- `GraphNode.meta`. -/
inductive NodeDetails where
  | subject (facts : Nat)
  | fact (version : Nat) (recordedFrom : String)
  | event (occurredAt : String)
deriving DecidableEq, Repr

/-- `GraphNode`. -/
structure GraphNode where
  id : String
  kind : NodeKind
  label : String
  status : Option FactStatus
  details : NodeDetails
deriving DecidableEq, Repr

/-- `GraphEdge`. -/
structure GraphEdge where
  source : String
  target : String
  kind : EdgeKind
deriving DecidableEq, Repr

/-- `GraphResponse`. -/
structure Graph where
  subjectId : String
  projectId : String
  nodes : List GraphNode
  edges : List GraphEdge
deriving DecidableEq, Repr

namespace GraphPrinter

variable (printer : GraphPrinter)

/-- `_fact_label`. -/
def factLabel (f : Fact) : String :=
  let value := f.value.get "text"
  if isTruthy value then f.predicate ++ ": " ++ printer.strJson value else f.predicate

/-- The id of the node of a subject. -/
def subjectNode (subjectId : String) : String := "subject:" ++ subjectId

/-- The id of the node of a fact. -/
def factNode (id : FactId) : String := "fact:" ++ printer.strFactId id

/-- The id of the node of an event. -/
def eventNode (id : EventId) : String := "event:" ++ printer.strEventId id

end GraphPrinter

namespace Db

variable (printer : GraphPrinter) (db : Db) (scope : Scope)

/-- The facts of a graph, oldest first. -/
def graphFacts : List Fact :=
  (db.facts.rows.filter fun f ↦ f.scope = scope ∧ f.status ≠ .deleted).insertionSort
    fun f g ↦ f.recordedFrom ≤ g.recordedFrom

/-- The events of a graph: every one that a fact of it names. -/
def graphEvents : List Event :=
  db.events.rows.filter fun e ↦ e.id ∈ (db.graphFacts scope).flatMap Fact.sourceEventIds

/-- The nodes of a graph. -/
def graphNodes : List GraphNode :=
  ⟨GraphPrinter.subjectNode scope.subjectId, .subject, scope.subjectId, none,
      .subject (db.graphFacts scope).length⟩ ::
    (db.graphFacts scope).map (fun f ↦
      ⟨printer.factNode f.id, .fact, printer.factLabel f, some f.status,
        .fact f.version (printer.isoformat f.recordedFrom)⟩) ++
    (db.graphEvents scope).map fun e ↦
      ⟨printer.eventNode e.id, .event, e.kind, none, .event (printer.isoformat e.occurredAt)⟩

/-- The edge from the subject to a fact, and the one from the fact to the one it names. -/
def factEdges (f : Fact) : List GraphEdge :=
  ⟨GraphPrinter.subjectNode scope.subjectId, printer.factNode f.id, .hasFact⟩ ::
    (f.supersedesId.toList.filter fun id ↦ id ∈ (db.graphFacts scope).map Fact.id).map fun id ↦
      ⟨printer.factNode f.id, printer.factNode id, .supersedes⟩

/-- The edges from a fact to the events it was derived from. -/
def sourceEdges (f : Fact) : List GraphEdge :=
  (f.sourceEventIds.filter fun id ↦ id ∈ (db.graphEvents scope).map Event.id).map fun id ↦
    ⟨printer.factNode f.id, printer.eventNode id, .derivedFrom⟩

/-- The edges of a graph. -/
def graphEdges : List GraphEdge :=
  (db.graphFacts scope).flatMap (db.factEdges printer scope) ++
    (db.graphFacts scope).flatMap (db.sourceEdges printer scope)

/-- `build_subject_graph`. -/
def buildSubjectGraph : Graph :=
  ⟨scope.subjectId, scope.projectId, db.graphNodes printer scope, db.graphEdges printer scope⟩

end Db

end Haki
