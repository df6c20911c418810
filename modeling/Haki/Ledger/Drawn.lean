import Haki.Ledger.Capture

/-!
# Writing events under drawn ids

`write_events` on the rows alone.  Every event of a batch comes with the id that
its row is given if it is inserted, so the rows of other projects have no part
in how ids are drawn.  An `EventStore` draws them in order
(`EventStore.writeEvents_eq`).
-/

namespace Haki

section

variable (hash : EventContent → String) (batchKey : Option String)

/-- The row of an event. -/
def eventRow (id : EventId) (event : EventIn) : EventRow :=
  ⟨id, event.toEventContent, event.threadId, event.runId, idempotencyKeyOf hash batchKey event⟩

/-- The rows that `INSERT … ON CONFLICT DO NOTHING` adds to these, and returns. -/
def newRows : List EventRow → List (EventId × EventIn) → List EventRow
  | _, [] => []
  | rows, (id, event) :: batch =>
    if event.eventKey hash batchKey ∈ rows.map EventRow.eventKey then newRows rows batch
    else eventRow hash batchKey id event ::
      newRows (rows ++ [eventRow hash batchKey id event]) batch

/-- `write_events`: the row of every event, selected by project and key, and whether it is a
duplicate. -/
def writeRows (rows : List EventRow) (batch : List (EventId × EventIn)) : List (EventRow × Bool) :=
  let new := newRows hash batchKey rows batch
  let inserted := new.map EventRow.idempotencyKey
  batch.filterMap fun drawn ↦
    ((rows ++ new).find? fun row ↦ row.eventKey = drawn.2.eventKey hash batchKey).map fun row ↦
      (row, idempotencyKeyOf hash batchKey drawn.2 ∉ inserted)

/-- The ids an `EventStore` draws for a batch. -/
def EventStore.draws : EventStore → List EventIn → List (EventId × EventIn)
  | _, [] => []
  | store, event :: events =>
    (store.nextId, event) :: (store.insert hash batchKey event).draws events

end

section

variable {hash : EventContent → String} {batchKey : Option String} {store : EventStore}
  {rows : List EventRow} {batch : List (EventId × EventIn)} {row : EventRow}

/-- A new row is that of an event of the batch. -/
theorem mem_newRows (h : row ∈ newRows hash batchKey rows batch) :
    ∃ drawn ∈ batch, row = eventRow hash batchKey drawn.1 drawn.2 := by
  induction batch generalizing rows with
  | nil => cases h
  | cons drawn batch ih =>
    have later {rows : List EventRow} (h : row ∈ newRows hash batchKey rows batch) :
        ∃ d ∈ drawn :: batch, row = eventRow hash batchKey d.1 d.2 := by
      obtain ⟨d, hd, hrow⟩ := ih h
      exact ⟨d, List.mem_cons_of_mem _ hd, hrow⟩
    rw [newRows] at h
    split at h
    · exact later h
    · rcases List.mem_cons.mp h with rfl | h
      · exact ⟨drawn, List.mem_cons_self, rfl⟩
      · exact later h

/-- What is selected is the row of an event of the batch. -/
theorem mem_writeRows {result : EventRow × Bool}
    (h : result ∈ writeRows hash batchKey rows batch) :
    result.1 ∈ rows ++ newRows hash batchKey rows batch ∧
      ∃ drawn ∈ batch, result.1.eventKey = drawn.2.eventKey hash batchKey := by
  obtain ⟨drawn, hdrawn, h⟩ := List.mem_filterMap.mp h
  obtain ⟨row, hfind, rfl⟩ := Option.map_eq_some_iff.mp h
  have hkey := List.find?_some hfind
  exact ⟨List.mem_of_find?_eq_some hfind, drawn, hdrawn, of_decide_eq_true hkey⟩

theorem EventStore.insertAll_rows (store : EventStore) (events : List EventIn) :
    (store.insertAll hash batchKey events).rows =
      store.rows ++ newRows hash batchKey store.rows (store.draws hash batchKey events) := by
  induction events generalizing store with
  | nil => exact (List.append_nil _).symm
  | cons event events ih =>
    have hall : store.insertAll hash batchKey (event :: events) =
        (store.insert hash batchKey event).insertAll hash batchKey events := rfl
    rw [hall, ih, EventStore.draws, newRows]
    by_cases h : event.eventKey hash batchKey ∈ store.rows.map EventRow.eventKey
    · have hsame : store.insert hash batchKey event = store := dif_pos h
      rw [if_pos h, hsame]
    · have hrows : (store.insert hash batchKey event).rows =
          store.rows ++ [eventRow hash batchKey store.nextId event] :=
        congrArg EventStore.rows (dif_neg h)
      rw [if_neg h, hrows, List.append_assoc]
      rfl

/-- **An `EventStore` writes under drawn ids.** -/
theorem EventStore.writeEvents_eq (store : EventStore) (events : List EventIn) :
    store.writeEvents hash batchKey events =
      writeRows hash batchKey store.rows (store.draws hash batchKey events) := by
  have hevents (store : EventStore) (events : List EventIn) :
      (store.draws hash batchKey events).map Prod.snd = events := by
    induction events generalizing store with
    | nil => rfl
    | cons event events ih => exact congrArg (event :: ·) (ih _)
  have hnew : store.returning hash batchKey events =
      newRows hash batchKey store.rows (store.draws hash batchKey events) := by
    rw [EventStore.returning, EventStore.insertAll_rows, List.drop_left]
  have hmap {β : Type} (f : EventIn → Option β) : events.filterMap f =
      (store.draws hash batchKey events).filterMap (f ∘ Prod.snd) := by
    rw [← List.filterMap_map, hevents]
  rw [EventStore.writeEvents, writeRows, hnew, hmap]
  simp only [EventStore.find?, EventStore.insertAll_rows]
  rfl

end

end Haki
