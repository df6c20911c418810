import Haki.Consolidator.Race

/-!
# What the locks of the race keep

What each turn of a consolidation and each statement of the erasure does, and
what row locks and the foreign key of the chunks give in every interleaving
(`Race.Inv`): the statements of the erasure come in order, and no chunk of an
erased event is left.
-/

namespace Haki

open Data Control

namespace Deletion

variable {κ : Type} {d : Deletion κ}

theorem begun_of_done (h : ∃ keys, d = .done keys) : d.Begun := by
  obtain ⟨keys, rfl⟩ := h
  trivial

theorem begun_of_waiting {keys : List κ} (h : d = .waiting keys) : d.Begun := by
  subst h
  trivial

/-- Once the statement is done, the rows it took are deleted. -/
theorem deleted_of_done (h : ∃ keys, d = .done keys) : d.deleted = d.targets := by
  obtain ⟨keys, rfl⟩ := h
  rfl

end Deletion

/-- The statements of an erasure come one after the other. -/
structure Erasure.Ordered (x : Erasure) : Prop where
  conflictSets : x.conflictSets.Begun → ∃ keys, x.facts = .done keys
  events : x.events.Begun → ∃ keys, x.conflictSets = .done keys
  committed : x.committed = true → ∃ keys, x.events = .done keys

/-- Facts and conflict sets are deleted when the erasure comes to the events. -/
theorem Erasure.Ordered.begun {x : Erasure} (h : x.Ordered) (hbegun : x.events.Begun) :
    (∃ keys, x.facts = .done keys) ∧ ∃ keys, x.conflictSets = .done keys := by
  have hsets := h.events hbegun
  exact ⟨h.conflictSets (Deletion.begun_of_done hsets), hsets⟩

/-- All statements of a committed erasure are done. -/
theorem Erasure.Ordered.done {x : Erasure} (h : x.Ordered) (hcommitted : x.committed = true) :
    (∃ keys, x.facts = .done keys) ∧ (∃ keys, x.conflictSets = .done keys) ∧
      ∃ keys, x.events = .done keys := by
  have hevents := h.committed hcommitted
  obtain ⟨hfacts, hsets⟩ := h.begun (Deletion.begun_of_done hevents)
  exact ⟨hfacts, hsets, hevents⟩

namespace Race

variable {env : Env} {r r' : Race} {s s' : Consolidation}

/-! ## What a turn does -/

theorem read_eq_ok {eventIds : List EventId} {only : Option (List EventId)}
    (h : r.read s eventIds only = .ok s') :
    ∃ events, (∀ e ∈ events, e ∈ (r.view s).events) ∧ s' = { s with
      events := events
      stage := .read
      seen := []
      saved := s.work
      savedLocks := s.locks
      work :=
        { s.work with
          read := s.work.read ++ events
          early := if r.erasure.events.Begun then s.work.early else s.work.early ++ events
          meanwhile :=
            if r.erasure.events.Begun ∧ r.erasure.committed = false then
              s.work.meanwhile ++ events
            else s.work.meanwhile } } := by
  dsimp only [read] at h
  split at h
  · refine ⟨_, fun e he ↦ ?_, (Except.ok.inj h).symm⟩
    rw [jobEvents, List.mem_filter, List.mem_insertionSort, List.mem_filter] at he
    exact he.1.1
  · cases h

theorem embed_eq_ok (h : r.embed env s = .ok s') :
    ∃ rows : List Event, (∀ e ∈ rows, r.Standing e.id) ∧ s' = { s with
      stage := .embedded
      work.rows.events := rows.foldl Table.upsert s.work.rows.events } := by
  dsimp only [embed] at h
  split at h
  · split at h
    · next hpending =>
      refine ⟨_, fun e he ↦ ?_, (Except.ok.inj h).symm⟩
      obtain ⟨e', he', rfl⟩ := List.mem_map.mp he
      exact (hpending e' he').1
    · cases h
  · cases h

theorem chunk_eq_ok (h : r.chunk env s = .ok s') :
    ∃ (chunks : List EpisodeChunk) (scopes : List Scope),
      (∀ c ∈ chunks, r.Standing c.id.event) ∧ s' = { s with
        stage := .locking scopes
        work.rows.chunks := chunks.foldl Table.insert s.work.rows.chunks } := by
  dsimp only [chunk] at h
  split at h
  · split at h
    · next hchunks => exact ⟨_, _, fun c hc ↦ (hchunks c hc).1, (Except.ok.inj h).symm⟩
    · cases h
  · cases h

theorem lock_eq_ok (h : r.lock s = .ok s') :
    ∃ stage locks, s' = { s with stage := stage, locks := locks } := by
  dsimp only [lock] at h
  split at h
  · split at h
    · exact ⟨_, _, (Except.ok.inj h).symm⟩
    · cases h
  · cases h

theorem mem_of_current {event : EventId} {e : Event} (h : s.current event = some e) :
    e ∈ s.events := by
  rw [Consolidation.current] at h
  split at h
  · exact List.mem_of_find?_eq_some h
  · cases h

theorem look_eq_ok {event : EventId} (h : r.look s event = .ok s') :
    ∃ e ∈ s.events, s' = { s with
      seen := s.seen ++ (r.view s).facts.rows.filter fun f ↦ f.scope = e.scope } := by
  dsimp only [look] at h
  split at h
  · next e he => exact ⟨e, mem_of_current he, (Except.ok.inj h).symm⟩
  · cases h

theorem writeFact_eq_ok {event : EventId} {fact : Fact} (h : r.writeFact s event fact = .ok s') :
    ∃ e ∈ s.events, FactWrite e ((r.view s).facts.get? fact.id) fact ∧
      ¬ r.Doomed Erasure.facts fact.id ∧ s' = { s with
        seen := s.seen ++ [fact]
        work.rows.facts := s.work.rows.facts.upsert fact } := by
  dsimp only [writeFact] at h
  split at h
  · next e he =>
    split at h
    · next hwrite =>
      exact ⟨e, mem_of_current he, hwrite.1, hwrite.2.2.1, (Except.ok.inj h).symm⟩
    · cases h
  · cases h

theorem writeConflictSet_eq_ok {event : EventId} {conflict : ConflictSet}
    (h : r.writeConflictSet s event conflict = .ok s') :
    ∃ e ∈ s.events, SetWrite e s.seen ((r.view s).conflictSets.get? conflict.id) conflict ∧
      ¬ r.Doomed Erasure.conflictSets conflict.id ∧ s' = { s with
        work.rows.conflictSets := s.work.rows.conflictSets.upsert conflict } := by
  dsimp only [writeConflictSet] at h
  split at h
  · next e he =>
    split at h
    · next hwrite =>
      exact ⟨e, mem_of_current he, hwrite.1, hwrite.2.1, (Except.ok.inj h).symm⟩
    · cases h
  · cases h

theorem index_eq_ok {event : EventId} {text : String} (h : r.index env s event text = .ok s') :
    ∃ e : Event, r.Standing e.id ∧ s' = { s with
      work.rows.events := s.work.rows.events.upsert e } := by
  dsimp only [index] at h
  split at h
  · next e he =>
    split at h
    · next hstanding => exact ⟨e.indexed env text, hstanding.1, (Except.ok.inj h).symm⟩
    · cases h
  · cases h

theorem finish_eq_ok (h : finish s = .ok s') :
    s' = { s with events := [], stage := .between, seen := [] } := by
  rw [finish] at h
  split at h
  · exact (Except.ok.inj h).symm
  · cases h

theorem fail_eq_ok (h : fail s = .ok s') :
    s' = { s with
      events := []
      stage := .between
      seen := []
      locks := s.savedLocks
      work := s.saved } := by
  rw [fail] at h
  split at h
  · cases h
  · exact (Except.ok.inj h).symm

theorem turn_id {turn : JobTurn} (h : r.turn env s turn = .ok s') : s'.id = s.id := by
  cases turn with
  | read eventIds only =>
    obtain ⟨_, _, rfl⟩ := read_eq_ok h
    rfl
  | embed =>
    obtain ⟨_, _, rfl⟩ := embed_eq_ok h
    rfl
  | chunk =>
    obtain ⟨_, _, _, rfl⟩ := chunk_eq_ok h
    rfl
  | lock =>
    obtain ⟨_, _, rfl⟩ := lock_eq_ok h
    rfl
  | look event =>
    obtain ⟨_, _, rfl⟩ := look_eq_ok h
    rfl
  | writeFact event fact =>
    obtain ⟨_, _, _, _, rfl⟩ := writeFact_eq_ok h
    rfl
  | writeConflictSet event conflict =>
    obtain ⟨_, _, _, _, rfl⟩ := writeConflictSet_eq_ok h
    rfl
  | index event text =>
    obtain ⟨_, _, rfl⟩ := index_eq_ok h
    rfl
  | finish =>
    obtain rfl := finish_eq_ok h
    rfl
  | fail =>
    obtain rfl := fail_eq_ok h
    rfl
  | commit => cases h
  | crash => cases h

theorem go_cases {turn : JobTurn} (h : r.go env s turn = .ok r') :
    (∃ s', r.turn env s turn = .ok s' ∧
      r' = { r with consolidations := r.consolidations.update s.id fun _ ↦ s' }) ∨
    (turn = .commit ∧ r' = r.commit s) ∨
    r' = r.crash s := by
  have hturn (h : (r.turn env s turn).map (fun s' ↦ ({ r with
      consolidations := r.consolidations.update s.id fun _ ↦ s' } : Race)) = .ok r') :
      ∃ s', r.turn env s turn = .ok s' ∧
        r' = { r with consolidations := r.consolidations.update s.id fun _ ↦ s' } := by
    cases hs : r.turn env s turn with
    | error e => rw [hs] at h; cases h
    | ok s' => rw [hs] at h; exact ⟨s', rfl, (Except.ok.inj h).symm⟩
  cases turn with
  | commit =>
    dsimp only [go] at h
    split at h
    · exact .inr (.inl ⟨rfl, (Except.ok.inj h).symm⟩)
    · cases h
  | crash => exact .inr (.inr (Except.ok.inj h).symm)
  | _ => exact .inl (hturn h)

/-! ## What the erasure does -/

/-- The effect of a statement of the erasure. -/
inductive Erases (r : Race) : Race → Prop where
  | deleteFacts (h : r.erasure.facts = .ahead) :
    Erases r { r with erasure.facts := .waiting r.subjectFacts }
  | factsDeleted (keys : List FactId) (h : r.erasure.facts = .waiting keys) :
    Erases r { r with erasure.facts := .done keys }
  | deleteConflictSets (keys : List FactId) (hfacts : r.erasure.facts = .done keys)
      (h : r.erasure.conflictSets = .ahead) :
    Erases r { r with erasure.conflictSets := .waiting r.subjectConflictSets }
  | conflictSetsDeleted (keys : List ConflictId) (h : r.erasure.conflictSets = .waiting keys) :
    Erases r { r with erasure.conflictSets := .done keys }
  | deleteEvents (keys : List ConflictId) (hsets : r.erasure.conflictSets = .done keys)
      (h : r.erasure.events = .ahead) :
    Erases r { r with erasure.events := .waiting r.subjectEvents }
  | eventsDeleted (keys : List EventId) (h : r.erasure.events = .waiting keys)
      (hfree : r.EventsFree keys) :
    Erases r { r with erasure.events := .done keys }
  | commit (keys : List EventId) (h : r.erasure.events = .done keys)
      (hopen : r.erasure.committed = false) :
    Erases r { r with rows := r.survivors, erasure.committed := true }

theorem erases_of_erase {turn : ErasureTurn} (h : r.erase turn = .ok r') : r.Erases r' := by
  cases turn with
  | deleteFacts =>
    dsimp only [erase] at h
    split at h
    · exact Except.ok.inj h ▸ .deleteFacts ‹_›
    · cases h
  | factsDeleted =>
    dsimp only [erase] at h
    split at h
    · split at h
      · exact Except.ok.inj h ▸ .factsDeleted _ ‹_›
      · cases h
    · cases h
  | deleteConflictSets =>
    dsimp only [erase] at h
    split at h
    · exact Except.ok.inj h ▸ .deleteConflictSets _ ‹_› ‹_›
    · cases h
  | conflictSetsDeleted =>
    dsimp only [erase] at h
    split at h
    · split at h
      · exact Except.ok.inj h ▸ .conflictSetsDeleted _ ‹_›
      · cases h
    · cases h
  | deleteEvents =>
    dsimp only [erase] at h
    split at h
    · exact Except.ok.inj h ▸ .deleteEvents _ ‹_› ‹_›
    · cases h
  | eventsDeleted =>
    dsimp only [erase] at h
    split at h
    · split at h
      · exact Except.ok.inj h ▸ .eventsDeleted _ ‹_› ‹_›
      · cases h
    · cases h
  | commit =>
    dsimp only [erase] at h
    split at h
    · split at h
      · cases h
      · next hopen => exact Except.ok.inj h ▸ .commit _ ‹_› (Bool.eq_false_iff.mpr hopen)
    · cases h

/-- A statement runs while the erasure is open. -/
theorem Erases.isOpen (h : r.Erases r') (hr : r.erasure.Ordered) :
    r.erasure.committed = false := by
  refine Bool.eq_false_iff.mpr fun hcommitted ↦ ?_
  obtain ⟨⟨_, hfacts⟩, ⟨_, hsets⟩, _, hevents⟩ := hr.done hcommitted
  cases h with
  | deleteFacts h => cases h.symm.trans hfacts
  | factsDeleted keys h => cases h.symm.trans hfacts
  | deleteConflictSets keys _ h => cases h.symm.trans hsets
  | conflictSetsDeleted keys h => cases h.symm.trans hsets
  | deleteEvents keys _ h => cases h.symm.trans hevents
  | eventsDeleted keys h => cases h.symm.trans hevents
  | commit keys _ hopen => cases hopen.symm.trans hcommitted

theorem Erases.ordered (h : r.Erases r') (hr : r.erasure.Ordered) : r'.erasure.Ordered := by
  have hopen := h.isOpen hr
  have hnot {P : Prop} (hcommitted : r.erasure.committed = true) : P := by
    rw [hopen] at hcommitted
    cases hcommitted
  cases h with
  | deleteFacts h =>
    refine ⟨fun hbegun ↦ ?_, hr.events, hnot⟩
    obtain ⟨keys, hkeys⟩ := hr.conflictSets hbegun
    cases h.symm.trans hkeys
  | factsDeleted keys h => exact ⟨fun _ ↦ ⟨keys, rfl⟩, hr.events, hnot⟩
  | deleteConflictSets keys hfacts h =>
    refine ⟨fun _ ↦ ⟨keys, hfacts⟩, fun hbegun ↦ ?_, hnot⟩
    obtain ⟨sets, hsets⟩ := hr.events hbegun
    cases h.symm.trans hsets
  | conflictSetsDeleted keys h =>
    exact ⟨fun _ ↦ hr.conflictSets (Deletion.begun_of_waiting h), fun _ ↦ ⟨keys, rfl⟩, hnot⟩
  | deleteEvents keys hsets h => exact ⟨hr.conflictSets, fun _ ↦ ⟨keys, hsets⟩, hnot⟩
  | eventsDeleted keys h =>
    exact ⟨hr.conflictSets, fun _ ↦ hr.events (Deletion.begun_of_waiting h), hnot⟩
  | commit keys h => exact ⟨hr.conflictSets, hr.events, fun _ ↦ ⟨keys, h⟩⟩

/-! ## Locks and references -/

/-- The event is there, and is not one of those the erasure has deleted. -/
def Kept (r : Race) (id : EventId) : Prop :=
  (∃ e ∈ r.rows.events, e.id = id) ∧ id ∉ r.erasure.events.deleted

/-- Written events, and the events of written chunks, are kept. -/
structure Holds (r : Race) (w : Work) : Prop where
  events : ∀ e ∈ w.rows.events, r.Kept e.id
  chunks : ∀ c ∈ w.rows.chunks, r.Kept c.id.event

/-- What is saved is also written. -/
structure Saves (saved work : Work) : Prop where
  events : ∀ e ∈ saved.rows.events, ∃ e' ∈ work.rows.events, e'.id = e.id
  chunks : ∀ c ∈ saved.rows.chunks, ∃ c' ∈ work.rows.chunks, c'.id = c.id

theorem Saves.refl (w : Work) : Saves w w :=
  ⟨fun e he ↦ ⟨e, he, rfl⟩, fun c hc ↦ ⟨c, hc, rfl⟩⟩

/-- What the locks of a consolidation give. -/
structure Holding (r : Race) (s : Consolidation) : Prop where
  work : r.Holds s.work
  saved : r.Holds s.saved
  saves : Saves s.saved s.work

/-- What holds in every interleaving. -/
structure Inv (r : Race) : Prop where
  ordered : r.erasure.Ordered
  known : ∀ e ∈ r.rows.events, e.id ∈ r.known
  targets : ∀ id ∈ r.erasure.events.targets, id ∈ r.known
  gone : r.erasure.committed = true → ∀ e ∈ r.rows.events, e.id ∉ r.erasure.events.deleted
  chunks : r.rows.ChunksHaveEvents
  holding : ∀ s ∈ r.consolidations, r.Holding s

theorem inv_start {rows : Rows} (h : rows.ChunksHaveEvents) (scope : Scope) :
    (start rows scope).Inv where
  ordered := ⟨False.elim, False.elim, Bool.noConfusion⟩
  known _ he := List.mem_map_of_mem he
  targets _ h := absurd h List.not_mem_nil
  gone := Bool.noConfusion
  chunks := h
  holding _ h := absurd h List.not_mem_nil

theorem Inv.kept (hr : r.Inv) {id : EventId} (h : r.Standing id) : r.Kept id := by
  refine ⟨h.1, fun hid ↦ ?_⟩
  cases hcommitted : r.erasure.committed with
  | true =>
    obtain ⟨e, he, rfl⟩ := h.1
    exact hr.gone hcommitted e he hid
  | false => exact h.2 ⟨hcommitted, hid⟩

theorem Holds.mono {w : Work} (h : r.Holds w) (hkept : ∀ id, r.Kept id → r'.Kept id) :
    r'.Holds w :=
  ⟨fun e he ↦ hkept _ (h.events e he), fun c hc ↦ hkept _ (h.chunks c hc)⟩

theorem Holding.mono (h : r.Holding s) (hkept : ∀ id, r.Kept id → r'.Kept id) : r'.Holding s :=
  ⟨h.work.mono hkept, h.saved.mono hkept, h.saves⟩

/-- A consolidation that changes neither events nor chunks. -/
theorem Holding.of_eq (h : r.Holding s) (hevents : s'.work.rows.events = s.work.rows.events)
    (hchunks : s'.work.rows.chunks = s.work.rows.chunks) (hsaved : s'.saved = s.saved) :
    r.Holding s' where
  work := ⟨hevents ▸ h.work.events, hchunks ▸ h.work.chunks⟩
  saved := hsaved ▸ h.saved
  saves := by
    rw [hsaved]
    exact ⟨hevents ▸ h.saves.events, hchunks ▸ h.saves.chunks⟩

theorem holding_turn (hr : r.Inv) (hs : s ∈ r.consolidations) {turn : JobTurn}
    (h : r.turn env s turn = .ok s') : r.Holding s' := by
  have hold := hr.holding s hs
  cases turn with
  | read eventIds only =>
    obtain ⟨events, -, rfl⟩ := read_eq_ok h
    have hsaves := Saves.refl s.work
    exact ⟨⟨hold.work.events, hold.work.chunks⟩, hold.work, hsaves.events, hsaves.chunks⟩
  | embed =>
    obtain ⟨rows, hrows, rfl⟩ := embed_eq_ok h
    refine ⟨⟨fun e he ↦ ?_, hold.work.chunks⟩, hold.saved, fun e he ↦ ?_, hold.saves.chunks⟩
    · rcases Table.mem_of_mem_foldl_upsert he with he | he
      · exact hold.work.events e he
      · exact hr.kept (hrows e he)
    · obtain ⟨e', he', hid⟩ := hold.saves.events e he
      obtain ⟨e'', he'', hid'⟩ := Table.exists_mem_foldl_upsert rows he'
      exact ⟨e'', he'', hid'.trans hid⟩
  | chunk =>
    obtain ⟨chunks, scopes, hchunks, rfl⟩ := chunk_eq_ok h
    refine ⟨⟨hold.work.events, fun c hc ↦ ?_⟩, hold.saved, hold.saves.events, fun c hc ↦ ?_⟩
    · rcases Table.mem_of_mem_foldl_insert hc with hc | hc
      · exact hold.work.chunks c hc
      · exact hr.kept (hchunks c hc)
    · obtain ⟨c', hc', hid⟩ := hold.saves.chunks c hc
      exact ⟨c', Table.mem_foldl_insert_of_mem hc', hid⟩
  | lock =>
    obtain ⟨_, _, rfl⟩ := lock_eq_ok h
    exact hold.of_eq rfl rfl rfl
  | look event =>
    obtain ⟨_, _, rfl⟩ := look_eq_ok h
    exact hold.of_eq rfl rfl rfl
  | writeFact event fact =>
    obtain ⟨_, _, _, _, rfl⟩ := writeFact_eq_ok h
    exact hold.of_eq rfl rfl rfl
  | writeConflictSet event conflict =>
    obtain ⟨_, _, _, _, rfl⟩ := writeConflictSet_eq_ok h
    exact hold.of_eq rfl rfl rfl
  | index event text =>
    obtain ⟨e, he, rfl⟩ := index_eq_ok h
    refine ⟨⟨fun e' he' ↦ ?_, hold.work.chunks⟩, hold.saved, fun e' he' ↦ ?_, hold.saves.chunks⟩
    · rcases Table.mem_of_mem_upsert he' with he' | rfl
      · exact hold.work.events e' he'
      · exact hr.kept he
    · obtain ⟨e₁, he₁, hid⟩ := hold.saves.events e' he'
      obtain ⟨e₂, he₂, hid'⟩ := Table.exists_mem_upsert (a := e) he₁
      exact ⟨e₂, he₂, hid'.trans hid⟩
  | finish =>
    obtain rfl := finish_eq_ok h
    exact hold.of_eq rfl rfl rfl
  | fail =>
    obtain rfl := fail_eq_ok h
    exact ⟨hold.saved, hold.saved, Saves.refl s.saved⟩
  | commit => cases h
  | crash => cases h

/-- A change of the sessions only. -/
theorem Inv.of_consolidations (hr : r.Inv) {consolidations : Table Consolidation}
    (h : ∀ s ∈ consolidations, r.Holding s) :
    ({ r with consolidations := consolidations } : Race).Inv where
  ordered := hr.ordered
  known := hr.known
  targets := hr.targets
  gone := hr.gone
  chunks := hr.chunks
  holding s hs := (h s hs).mono fun _ hkept ↦ hkept

theorem Inv.commit (hr : r.Inv) (hs : s ∈ r.consolidations) : (r.commit s).Inv := by
  have hwork := (hr.holding s hs).work
  have hmerge {id : EventId} (hkept : r.Kept id) : (r.commit s).Kept id := by
    obtain ⟨⟨e, he, rfl⟩, hid⟩ := hkept
    obtain ⟨e', he', hid'⟩ := Table.exists_mem_merge s.work.rows.events he
    exact ⟨⟨e', he', hid'⟩, hid⟩
  -- A written event was there before.
  have hevents {e : Event} (he : e ∈ (r.commit s).rows.events) :
      ∃ e' ∈ r.rows.events, e'.id = e.id := by
    rcases Table.mem_merge he with he | ⟨he, -⟩
    · exact (hwork.events e he).1
    · exact ⟨e, he, rfl⟩
  constructor
  case ordered => exact hr.ordered
  case known =>
    intro e he
    obtain ⟨e', he', hid⟩ := hevents he
    exact hid ▸ hr.known e' he'
  case targets => exact hr.targets
  case gone =>
    intro hcommitted e he
    obtain ⟨e', he', hid⟩ := hevents he
    exact hid ▸ hr.gone hcommitted e' he'
  case chunks =>
    intro c hc
    rcases Table.mem_merge hc with hc | ⟨hc, -⟩
    · exact (hmerge (hwork.chunks c hc)).1
    · obtain ⟨e, he, hid⟩ := hr.chunks c hc
      obtain ⟨e', he', hid'⟩ := Table.exists_mem_merge s.work.rows.events he
      exact ⟨e', he', hid'.trans hid⟩
  case holding =>
    exact fun t ht ↦ (hr.holding t (Table.mem_filter.mp ht).1).mono fun _ ↦ hmerge

theorem Inv.capture (hr : r.Inv) {event : Event} (hnew : event.id ∉ r.known) :
    ({ r with rows.events := r.rows.events.insert event, known := r.known ++ [event.id] } :
      Race).Inv := by
  constructor
  case ordered => exact hr.ordered
  case known =>
    intro e he
    rcases Table.mem_of_mem_insert he with he | rfl
    · exact List.mem_append_left _ (hr.known e he)
    · exact List.mem_append_right _ List.mem_cons_self
  case targets => exact fun id hid ↦ List.mem_append_left _ (hr.targets id hid)
  case gone =>
    intro hcommitted e he hid
    rcases Table.mem_of_mem_insert he with he | rfl
    · exact hr.gone hcommitted e he hid
    · have hdeleted := Deletion.deleted_of_done (hr.ordered.committed hcommitted)
      exact hnew (hr.targets _ (hdeleted ▸ hid))
  case chunks =>
    intro c hc
    obtain ⟨e, he, hid⟩ := hr.chunks c hc
    exact ⟨e, Table.mem_insert_of_mem he, hid⟩
  case holding =>
    refine fun s hs ↦ (hr.holding s hs).mono fun id hkept ↦ ⟨?_, hkept.2⟩
    obtain ⟨e, he, hid⟩ := hkept.1
    exact ⟨e, Table.mem_insert_of_mem he, hid⟩

/-- The erasure deletes no event that a consolidation has written, or has written a chunk of. -/
theorem Holding.eventsDeleted (h : r.Holding s) (hs : s ∈ r.consolidations) {keys : List EventId}
    (hfree : r.EventsFree keys) :
    ({ r with erasure.events := .done keys } : Race).Holding s := by
  obtain ⟨hevents, hchunks, -⟩ := hfree s hs
  refine ⟨⟨fun e he ↦ ?_, fun c hc ↦ ?_⟩, ⟨fun e he ↦ ?_, fun c hc ↦ ?_⟩, h.saves⟩
  · exact ⟨(h.work.events e he).1, hevents e he⟩
  · exact ⟨(h.work.chunks c hc).1, hchunks c hc⟩
  · obtain ⟨e', he', hid⟩ := h.saves.events e he
    exact ⟨(h.saved.events e he).1, hid ▸ hevents e' he'⟩
  · obtain ⟨c', hc', hid⟩ := h.saves.chunks c hc
    exact ⟨(h.saved.chunks c hc).1, hid ▸ hchunks c' hc'⟩

theorem Inv.erase (hr : r.Inv) (h : r.Erases r') : r'.Inv := by
  have hordered := h.ordered hr.ordered
  have hopen := h.isOpen hr.ordered
  have hnot {P : Prop} (hcommitted : r.erasure.committed = true) : P := by
    rw [hopen] at hcommitted
    cases hcommitted
  cases h with
  | deleteFacts =>
    exact ⟨hordered, hr.known, hr.targets, hr.gone, hr.chunks,
      fun s hs ↦ (hr.holding s hs).mono fun _ h ↦ h⟩
  | factsDeleted =>
    exact ⟨hordered, hr.known, hr.targets, hr.gone, hr.chunks,
      fun s hs ↦ (hr.holding s hs).mono fun _ h ↦ h⟩
  | deleteConflictSets =>
    exact ⟨hordered, hr.known, hr.targets, hr.gone, hr.chunks,
      fun s hs ↦ (hr.holding s hs).mono fun _ h ↦ h⟩
  | conflictSetsDeleted =>
    exact ⟨hordered, hr.known, hr.targets, hr.gone, hr.chunks,
      fun s hs ↦ (hr.holding s hs).mono fun _ h ↦ h⟩
  | deleteEvents keys hsets h =>
    refine ⟨hordered, hr.known, fun id hid ↦ ?_, hnot, hr.chunks, fun s hs ↦ ?_⟩
    · obtain ⟨e, he, rfl⟩ := List.mem_map.mp hid
      exact hr.known e (List.mem_filter.mp he).1
    · exact (hr.holding s hs).mono fun _ hkept ↦ ⟨hkept.1, List.not_mem_nil⟩
  | eventsDeleted keys h hfree =>
    refine ⟨hordered, hr.known, fun id hid ↦ ?_, hnot, hr.chunks, fun s hs ↦ ?_⟩
    · exact hr.targets id (by rw [h]; exact hid)
    · exact (hr.holding s hs).eventsDeleted hs hfree
  | commit keys h =>
    refine ⟨hordered, fun e he ↦ hr.known e (Table.mem_filter.mp he).1, hr.targets, ?_, ?_, ?_⟩
    · exact fun _ e he ↦ of_decide_eq_true (Table.mem_filter.mp he).2
    · intro c hc
      obtain ⟨hc, hid⟩ := Table.mem_filter.mp hc
      obtain ⟨e, he, heq⟩ := hr.chunks c hc
      exact ⟨e, Table.mem_filter.mpr ⟨he, by rw [heq]; exact hid⟩, heq⟩
    · refine fun s hs ↦ (hr.holding s hs).mono fun id hkept ↦ ⟨?_, hkept.2⟩
      obtain ⟨e, he, heq⟩ := hkept.1
      exact ⟨e, Table.mem_filter.mpr ⟨he, decide_eq_true (heq ▸ hkept.2)⟩, heq⟩

/-- Everything a step does. -/
theorem step_cases {action : RaceAction} (h : r.step env action = .ok r') :
    (∃ event : Event, event.id ∉ r.known ∧ r' = { r with
      rows.events := r.rows.events.insert event, known := r.known ++ [event.id] }) ∨
    (∃ session, r' = { r with consolidations := r.consolidations.insert (.new session) }) ∨
    (∃ s ∈ r.consolidations, ∃ turn, action = .go s.id turn ∧ r.go env s turn = .ok r') ∨
    r.Erases r' := by
  cases action with
  | capture event =>
    rw [step] at h
    split at h
    · cases h
    · exact .inl ⟨event, ‹_›, (Except.ok.inj h).symm⟩
  | «open» session =>
    rw [step] at h
    split at h
    · cases h
    · exact .inr (.inl ⟨session, (Except.ok.inj h).symm⟩)
  | go session turn =>
    dsimp only [step] at h
    split at h
    · rename_i s hs
      obtain rfl : s.id = session := Table.key_of_get? hs
      exact .inr (.inr (.inl ⟨s, Table.mem_of_get? hs, turn, rfl, h⟩))
    · cases h
  | erase turn => exact .inr (.inr (.inr (erases_of_erase h)))

theorem Inv.step (hr : r.Inv) {action : RaceAction} (h : r.step env action = .ok r') : r'.Inv := by
  rcases step_cases h with ⟨event, hnew, rfl⟩ | ⟨session, rfl⟩ | ⟨s, hs, turn, -, h⟩ | h
  · exact hr.capture hnew
  · refine hr.of_consolidations fun s hs ↦ ?_
    rcases Table.mem_of_mem_insert hs with hs | rfl
    · exact hr.holding s hs
    · have hempty : r.Holds .empty := ⟨fun _ h ↦ absurd h List.not_mem_nil,
        fun _ h ↦ absurd h List.not_mem_nil⟩
      exact ⟨hempty, hempty, Saves.refl _⟩
  · rcases go_cases h with ⟨s', hturn, rfl⟩ | ⟨-, rfl⟩ | rfl
    · refine hr.of_consolidations fun t ht ↦ ?_
      rcases Table.mem_update_const (turn_id hturn) ht with rfl | ⟨ht, -⟩
      · exact holding_turn hr hs hturn
      · exact hr.holding t ht
    · exact hr.commit hs
    · exact hr.of_consolidations fun t ht ↦ hr.holding t (Table.mem_filter.mp ht).1
  · exact hr.erase h

/-- A chunk of an erased event is never left. -/
theorem Inv.chunk_notMem_erased (hr : r.Inv) {c : EpisodeChunk} (hc : c ∈ r.rows.chunks) :
    c.id.event ∉ r.erased := by
  rw [erased]
  split
  · next hcommitted =>
    obtain ⟨e, he, hid⟩ := hr.chunks c hc
    exact hid ▸ hr.gone hcommitted e he
  · exact List.not_mem_nil

end Race

end Haki
