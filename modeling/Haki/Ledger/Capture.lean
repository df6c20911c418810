import Haki.Billing.Credits
import Haki.Data.Table
import Mathlib.Data.List.Induction

/-!
# Capture

`write_events`, which inserts what is new under `(project_id,
idempotency_key)`, and the route that charges and enqueues what it inserted
(`app.ledger.core`, `app.api.routes.capture`).  Aliases are resolved before.
-/

namespace Haki

open Data

/-- What `compute_event_hash` reads. -/
structure EventContent where
  orgId : String
  projectId : String
  subjectType : String
  subjectId : String
  kind : String
  occurredAt : Timestamp
  payload : Dict

/-- An event as it is sent, with the columns that identify it. -/
structure EventIn extends EventContent where
  threadId : Option String
  runId : Option String
  idempotencyKey : Option String

/-- A stored event. -/
structure EventRow where
  id : EventId
  content : EventContent
  threadId : Option String
  runId : Option String
  idempotencyKey : String

/-- `uq_events_idempotency`: `(project_id, idempotency_key)`. -/
abbrev EventKey := String × String

namespace EventRow

/-- The columns of the unique constraint. -/
def eventKey (row : EventRow) : EventKey := (row.content.projectId, row.idempotencyKey)

end EventRow

/-- The stored events: ids are drawn in order, and no two rows agree on project and key. -/
structure EventStore where
  rows : List EventRow
  nextId : EventId
  keys : (rows.map EventRow.eventKey).Nodup
  ids : (rows.map EventRow.id).Nodup
  drawn : ∀ row ∈ rows, row.id < nextId

/-! ## `write_events` -/

/-- `a or b` of a text that may be missing or empty. -/
def orKey : Option String → Option String
  | some s => if s = "" then none else some s
  | none => none

section

variable (hash : EventContent → String) (batchKey : Option String)

/-- The key of one event of a batch: of the batch, of the event, or of its content. -/
def idempotencyKeyOf (event : EventIn) : String :=
  match orKey batchKey, orKey event.idempotencyKey with
  | some key, _ => key ++ ":" ++ hash event.toEventContent
  | none, some key => key
  | none, none => hash event.toEventContent ++ ":" ++ event.subjectId

/-- The columns an event is unique by. -/
def EventIn.eventKey (event : EventIn) : EventKey :=
  (event.projectId, idempotencyKeyOf hash batchKey event)

namespace EventStore

/-- A row is stored under the columns. -/
def Has (store : EventStore) (k : EventKey) : Prop := k ∈ store.rows.map EventRow.eventKey

instance (store : EventStore) (k : EventKey) : Decidable (store.Has k) :=
  inferInstanceAs (Decidable (_ ∈ _))

/-- One row of `INSERT … ON CONFLICT DO NOTHING`. -/
def insert (store : EventStore) (event : EventIn) : EventStore :=
  if h : store.Has (event.eventKey hash batchKey) then store
  else
    { rows := store.rows ++ [⟨store.nextId, event.toEventContent, event.threadId, event.runId,
        idempotencyKeyOf hash batchKey event⟩]
      nextId := store.nextId + 1
      keys := by
        rw [List.map_append, List.map_singleton, ← List.concat_eq_append]
        exact List.Nodup.concat h store.keys
      ids := by
        rw [List.map_append, List.map_singleton, ← List.concat_eq_append]
        refine List.Nodup.concat (fun hmem ↦ ?_) store.ids
        obtain ⟨row, hrow, heq⟩ := List.mem_map.mp hmem
        exact absurd heq (store.drawn row hrow).ne
      drawn := by
        intro row hrow
        rcases List.mem_append.mp hrow with hrow | hrow
        · exact (store.drawn row hrow).trans (Nat.lt_succ_self _)
        · rw [List.mem_singleton.mp hrow]
          exact Nat.lt_succ_self _ }

/-- The row with a project and a key. -/
def find? (store : EventStore) (k : EventKey) : Option EventRow :=
  store.rows.find? fun row ↦ row.eventKey = k

/-- `INSERT` of a batch. -/
def insertAll (store : EventStore) (events : List EventIn) : EventStore :=
  events.foldl (insert hash batchKey) store

/-- The rows a batch inserted: what `RETURNING` returns. -/
def returning (store : EventStore) (events : List EventIn) : List EventRow :=
  (store.insertAll hash batchKey events).rows.drop store.rows.length

/-- `write_events`: the row of every event, and whether it is a duplicate.  The inserted rows are
looked up by their key alone. -/
def writeEvents (store : EventStore) (events : List EventIn) : List (EventRow × Bool) :=
  let inserted := (store.returning hash batchKey events).map EventRow.idempotencyKey
  events.filterMap fun event ↦
    ((store.insertAll hash batchKey events).find? (event.eventKey hash batchKey)).map fun row ↦
      (row, idempotencyKeyOf hash batchKey event ∉ inserted)

end EventStore

end

/-! ## The route -/

/-- Why a capture is refused. -/
inductive CaptureError where
  /-- `missing_scope` of `events.{index}.subject_id`. -/
  | missingScope (index : Nat)
  | credits (error : CreditError)
deriving DecidableEq, Repr

/-- What a capture reads and writes. -/
structure CaptureState where
  events : EventStore
  /-- The provisioned organizations. -/
  accounts : String → Option Account
  /-- The event ids of the consolidation jobs. -/
  jobs : List (List EventId)

/-- What a capture answers. -/
structure CaptureResponse where
  events : List (EventId × Bool)
  consolidationJob : Option (List EventId)

/-- The charge of one result. -/
def chargeEvent (now : Timestamp) (freeMonthlyCredits : Int) (accounts : String → Option Account)
    (result : EventRow × Bool) : Except CreditError (String → Option Account) :=
  if result.2 then .ok accounts
  else
    match accounts result.1.content.orgId with
    | none => .ok accounts
    | some account => do
      let granted ← account.maybeGrantLazyFreeCredits now freeMonthlyCredits
      let debited ← granted.tryDebitCredit now .captureDebit (some (.event result.1.id))
      pure (Function.update accounts result.1.content.orgId (some debited))

/-- `capture`. -/
def capture (hash : EventContent → String) (now : Timestamp) (freeMonthlyCredits : Int)
    (batchKey : Option String) (events : List EventIn) (s : CaptureState) :
    Except CaptureError (CaptureResponse × CaptureState) := do
  match events.findIdx? fun e ↦ e.subjectId = "" with
  | some index => throw (.missingScope index)
  | none =>
    let results := s.events.writeEvents hash batchKey events
    let accounts ← (results.foldlM (chargeEvent now freeMonthlyCredits) s.accounts).mapError .credits
    let newIds := (results.filter fun r ↦ !r.2).map fun r ↦ r.1.id
    let job := if newIds = [] then none else some newIds
    pure
      (⟨results.map fun r ↦ (r.1.id, r.2), job⟩,
        ⟨s.events.insertAll hash batchKey events, accounts, s.jobs ++ job.toList⟩)

/-! ## What a batch inserts -/

section Insert

variable {hash : EventContent → String} {batchKey : Option String} {store : EventStore}
  {events : List EventIn} {event : EventIn} {row : EventRow} {k : EventKey}

namespace EventStore

theorem find?_eq_some_iff : store.find? k = some row ↔ row ∈ store.rows ∧ row.eventKey = k := by
  have hfound {row : EventRow} (h : store.find? k = some row) :
      row ∈ store.rows ∧ row.eventKey = k := by
    rw [find?] at h
    have hkey := List.find?_some h
    exact ⟨List.mem_of_find?_eq_some h, of_decide_eq_true hkey⟩
  refine ⟨hfound, ?_⟩
  rintro ⟨hmem, hkey⟩
  cases hfind : store.find? k with
  | none =>
    rw [find?] at hfind
    exact absurd (decide_eq_true hkey) (by simpa using List.find?_eq_none.mp hfind row hmem)
  | some other =>
    obtain ⟨hother, heq⟩ := hfound hfind
    rw [List.inj_on_of_nodup_map store.keys hother hmem (heq.trans hkey.symm)]

theorem has_iff : store.Has k ↔ ∃ row ∈ store.rows, row.eventKey = k := List.mem_map

/-- What one row of an `INSERT` does. -/
theorem insert_cases (hash : EventContent → String) (batchKey : Option String)
    (store : EventStore) (event : EventIn) :
    (store.Has (event.eventKey hash batchKey) ∧ store.insert hash batchKey event = store) ∨
    (¬ store.Has (event.eventKey hash batchKey) ∧ ∃ row,
      (store.insert hash batchKey event).rows = store.rows ++ [row] ∧
      row.eventKey = event.eventKey hash batchKey ∧ row.id = store.nextId ∧
      row.content = event.toEventContent ∧ row.threadId = event.threadId ∧
      row.runId = event.runId) := by
  by_cases h : store.Has (event.eventKey hash batchKey)
  · exact .inl ⟨h, dif_pos h⟩
  · refine .inr ⟨h, ?_⟩
    rw [insert, dif_neg h]
    exact ⟨_, rfl, rfl, rfl, rfl, rfl, rfl⟩

/-- What a batch inserted: one row for every new key. -/
structure Inserted (hash : EventContent → String) (batchKey : Option String) (store : EventStore)
    (events : List EventIn) (new : List EventRow) : Prop where
  rows : (store.insertAll hash batchKey events).rows = store.rows ++ new
  fresh : ∀ row ∈ new, ¬ store.Has row.eventKey
  source : ∀ row ∈ new, ∃ event ∈ events, row.eventKey = event.eventKey hash batchKey ∧
    row.content = event.toEventContent ∧ row.threadId = event.threadId ∧ row.runId = event.runId
  stored : ∀ event ∈ events,
    (store.insertAll hash batchKey events).Has (event.eventKey hash batchKey)

theorem inserted (hash : EventContent → String) (batchKey : Option String) (store : EventStore)
    (events : List EventIn) :
    Inserted hash batchKey store events (store.returning hash batchKey events) := by
  suffices h : ∃ new, Inserted hash batchKey store events new by
    obtain ⟨new, hnew⟩ := h
    rwa [returning, hnew.rows, List.drop_left]
  induction events using List.reverseRecOn with
  | nil => exact ⟨[], (List.append_nil _).symm, by simp, by simp, by simp⟩
  | append_singleton events event ih =>
    obtain ⟨new, hrows, hfresh, hsource, hstored⟩ := ih
    have hall : store.insertAll hash batchKey (events ++ [event]) =
        (store.insertAll hash batchKey events).insert hash batchKey event := List.foldl_append ..
    have hmono {k : EventKey} (h : (store.insertAll hash batchKey events).Has k) :
        (store.insertAll hash batchKey (events ++ [event])).Has k := by
      rw [hall]
      rcases insert_cases hash batchKey (store.insertAll hash batchKey events) event with
        ⟨-, heq⟩ | ⟨-, row, heq, -⟩
      · rwa [heq]
      · rw [Has, heq, List.map_append]
        exact List.mem_append_left _ h
    have hsource' (row : EventRow) (hrow : row ∈ new) : ∃ e ∈ events ++ [event],
        row.eventKey = e.eventKey hash batchKey ∧ row.content = e.toEventContent ∧
          row.threadId = e.threadId ∧ row.runId = e.runId := by
      obtain ⟨e, he, heq⟩ := hsource row hrow
      exact ⟨e, List.mem_append_left _ he, heq⟩
    have hstored' {e : EventIn} (he : e ∈ events ++ [event])
        (hlast : (store.insertAll hash batchKey (events ++ [event])).Has
          (event.eventKey hash batchKey)) :
        (store.insertAll hash batchKey (events ++ [event])).Has (e.eventKey hash batchKey) := by
      rcases List.mem_append.mp he with he | he
      · exact hmono (hstored e he)
      · rwa [List.mem_singleton.mp he]
    rcases insert_cases hash batchKey (store.insertAll hash batchKey events) event with
      ⟨hhas, heq⟩ | ⟨hnew, row, heq, hkey, -, hcolumns⟩
    · refine ⟨new, ?_, hfresh, hsource', fun e he ↦ hstored' he (hmono hhas)⟩
      rw [hall, heq, hrows]
    · have hnotHas : ¬ store.Has row.eventKey := by
        intro hhas
        refine hnew ?_
        rw [← hkey, Has, hrows, List.map_append]
        exact List.mem_append_left _ hhas
      refine ⟨new ++ [row], ?_, fun other hother ↦ ?_, fun other hother ↦ ?_,
        fun e he ↦ hstored' he ?_⟩
      · rw [hall, heq, hrows, List.append_assoc]
      · rcases List.mem_append.mp hother with hother | hother
        · exact hfresh other hother
        · rwa [List.mem_singleton.mp hother]
      · rcases List.mem_append.mp hother with hother | hother
        · exact hsource' other hother
        · rw [List.mem_singleton.mp hother]
          exact ⟨event, List.mem_append_right _ (List.mem_singleton_self _), hkey, hcolumns⟩
      · rw [hall, Has, heq, List.map_append]
        exact List.mem_append_right _ (List.mem_singleton.mpr hkey.symm)

end EventStore

end Insert

end Haki
