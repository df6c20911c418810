import Haki.Data.Ascii
import Haki.Data.Dict
import Haki.Ledger.Capture

/-!
# The hash of an event

`compute_event_hash`, and the bounds `CaptureRequest` puts on what it is
computed from (`app.ledger.core`, `app.schemas.capture`).
-/

namespace Haki

open Data

/-- An event of a request. -/
structure RequestEvent extends EventIn where
  /-- `occurred_at.isoformat()`, in the offset the caller wrote. -/
  occurredAtIso : String

/-- A request that captures a batch. -/
structure CaptureRequest where
  events : List RequestEvent
  idempotencyKey : Option String

/-! ## `compute_event_hash` -/

/-- The object that is serialised, under the ISO text of the time. -/
def contentObject (occurredAt : String) (content : EventContent) : Dict where
  rows :=
    [("org_id", .str content.orgId), ("project_id", .str content.projectId),
      ("subject_type", .str content.subjectType), ("subject_id", .str content.subjectId),
      ("kind", .str content.kind), ("occurred_at", .str occurredAt),
      ("payload", .obj content.payload.rows)]
  nodup := by
    change (["org_id", "project_id", "subject_type", "subject_id", "kind", "occurred_at",
      "payload"] : List String).Nodup
    decide

/-- The canonical business content of an event. -/
def canonicalContent (occurredAt : String) (content : EventContent) : String :=
  ensureAscii (canonical (contentObject occurredAt content))

/-- `compute_event_hash`, under a hexadecimal digest. -/
def computeEventHash (sha256 : String → String) (occurredAt : String) (content : EventContent) :
    String :=
  "sha256:" ++ sha256 (canonicalContent occurredAt content)

/-- The canonical business content of an event of a request. -/
def RequestEvent.canonicalContent (event : RequestEvent) : String :=
  Haki.canonicalContent event.occurredAtIso event.toEventContent

/-- The key `write_events` stores an event of a request under. -/
def CaptureRequest.keyOf (sha256 : String → String) (request : CaptureRequest)
    (event : RequestEvent) : String :=
  idempotencyKeyOf (computeEventHash sha256 event.occurredAtIso) request.idempotencyKey
    event.toEventIn

/-! ## The schema -/

/-- `MAX_JSON_BYTES`. -/
def maxJsonBytes : Nat := 256 * 1024

/-- The texts of an event that the schema admits. -/
structure EventIn.Admitted (event : EventIn) : Prop where
  orgId : 1 ≤ event.orgId.length ∧ event.orgId.length ≤ 128
  projectId : 1 ≤ event.projectId.length ∧ event.projectId.length ≤ 128
  subjectType : event.subjectType.length ≤ 64
  subjectId : event.subjectId.length ≤ 128
  kind : 1 ≤ event.kind.length ∧ event.kind.length ≤ 128
  threadId : ∀ text ∈ event.threadId, text.length ≤ 128
  runId : ∀ text ∈ event.runId, text.length ≤ 128
  idempotencyKey : ∀ text ∈ event.idempotencyKey, text.length ≤ 256
  payload : (event.payload.dumps .default).utf8ByteSize ≤ maxJsonBytes
  /-- A decoded document has no other numbers. -/
  numbers : event.payload.WellFormed

/-- A request the schema admits. -/
structure CaptureRequest.Admitted (request : CaptureRequest) : Prop where
  count : 1 ≤ request.events.length ∧ request.events.length ≤ 100
  idempotencyKey : ∀ text ∈ request.idempotencyKey, text.length ≤ 256
  events : ∀ event ∈ request.events, event.toEventIn.Admitted

/-- The width of the column `idempotency_key`. -/
def idempotencyKeyWidth : Nat := 256

/-! ## What the content says -/

theorem contentObject_wellFormed {occurredAt : String} {content : EventContent}
    (h : content.payload.WellFormed) : (contentObject occurredAt content).WellFormed := by
  have hstr (s : String) : Json.WellFormed (.str s) := fun n hn ↦ absurd hn List.not_mem_nil
  refine Dict.wellFormed_iff.mpr fun entry hentry ↦ ?_
  have hrows : entry ∈ (contentObject occurredAt content).rows := hentry
  simp only [contentObject, List.mem_cons, List.not_mem_nil, or_false] at hrows
  rcases hrows with rfl | rfl | rfl | rfl | rfl | rfl | rfl
  any_goals exact hstr _
  exact h

/-- Two events with one canonical content have one subject. -/
theorem subjectId_of_canonicalContent {a b : RequestEvent} (ha : a.payload.WellFormed)
    (hb : b.payload.WellFormed) (h : a.canonicalContent = b.canonicalContent) :
    a.subjectId = b.subjectId := by
  have hcanonical := Dict.canonical_of_ensureAscii (contentObject_wellFormed ha)
    (contentObject_wellFormed hb) h
  have hsame := (Dict.canonical_eq_iff_same (contentObject_wellFormed ha)
    (contentObject_wellFormed hb)).mp hcanonical "subject_id"
  exact Json.str.inj (Option.some.inj hsame)

end Haki
