import Haki.Control.Fold
import Haki.Ledger.Capture

/-!
# What a capture accounts for

A result is flagged as new when its key is among the keys the batch inserted.
The rows that are flagged are the rows that were inserted when no two events of
the batch agree on a new project and key, and no event that is stored already
shares its key with a new event of another project.
-/

namespace Haki

open Data

/-! ## Results -/

section Results

variable {hash : EventContent → String} {batchKey : Option String} {store : EventStore}
  {events : List EventIn} {row : EventRow}

/-- No two events of a batch agree on a new project and key, and no stored event shares its key with
a new one. -/
structure DistinctBatch (hash : EventContent → String) (batchKey : Option String)
    (store : EventStore) (events : List EventIn) : Prop where
  once : ((events.filter fun e ↦ ¬ store.Has (e.eventKey hash batchKey)).map
    (EventIn.eventKey hash batchKey)).Nodup
  apart : ∀ e ∈ events, store.Has (e.eventKey hash batchKey) →
    ∀ e' ∈ events, ¬ store.Has (e'.eventKey hash batchKey) →
      idempotencyKeyOf hash batchKey e' ≠ idempotencyKeyOf hash batchKey e

/-- The rows that are not flagged as duplicates. -/
def flaggedRows (hash : EventContent → String) (batchKey : Option String) (store : EventStore)
    (events : List EventIn) : List EventRow :=
  ((store.writeEvents hash batchKey events).filter fun r ↦ !r.2).map Prod.fst

/-- The row of an event after the batch. -/
def rowOf (hash : EventContent → String) (batchKey : Option String) (store : EventStore)
    (events : List EventIn) (event : EventIn) : Option EventRow :=
  (store.insertAll hash batchKey events).find? (event.eventKey hash batchKey)

private theorem filter_filterMap_flag {α β : Type} (f : α → Option β) (p : α → Bool) (l : List α) :
    ((l.filterMap fun a ↦ (f a).map fun b ↦ (b, p a)).filter fun r ↦ !r.2).map Prod.fst =
      (l.filter fun a ↦ !p a).filterMap f := by
  induction l with
  | nil => rfl
  | cons a l ih =>
    cases hf : f a <;> cases hp : p a <;> simp [hf, hp, ih]

/-- The keys a batch inserted. -/
def insertedKeys (hash : EventContent → String) (batchKey : Option String) (store : EventStore)
    (events : List EventIn) : List String :=
  (store.returning hash batchKey events).map EventRow.idempotencyKey

theorem flaggedRows_eq : flaggedRows hash batchKey store events =
    (events.filter fun e ↦ idempotencyKeyOf hash batchKey e ∈
      insertedKeys hash batchKey store events).filterMap (rowOf hash batchKey store events) := by
  rw [flaggedRows, EventStore.writeEvents]
  refine (filter_filterMap_flag _ _ _).trans ?_
  congr 1
  refine List.filter_congr fun e _ ↦ ?_
  rw [decide_not, Bool.not_not]
  rfl

theorem nodup_returning (hash : EventContent → String) (batchKey : Option String)
    (store : EventStore) (events : List EventIn) :
    ((store.returning hash batchKey events).map EventRow.id).Nodup := by
  have hall := (store.insertAll hash batchKey events).ids
  rw [(store.inserted hash batchKey events).rows, List.map_append] at hall
  exact (List.nodup_append.mp hall).2.1

/-- The row of an event is new exactly when its key is not stored. -/
theorem mem_returning_of_rowOf {event : EventIn}
    (h : rowOf hash batchKey store events event = some row) :
    row.eventKey = event.eventKey hash batchKey ∧
      (row ∈ store.returning hash batchKey events ↔ ¬ store.Has (event.eventKey hash batchKey)) := by
  have hinserted := store.inserted hash batchKey events
  obtain ⟨hmem, hkey⟩ := EventStore.find?_eq_some_iff.mp h
  refine ⟨hkey, fun hnew ↦ hkey ▸ hinserted.fresh row hnew, fun hnot ↦ ?_⟩
  rw [hinserted.rows] at hmem
  refine (List.mem_append.mp hmem).resolve_left fun hold ↦ hnot ?_
  rw [← hkey]
  exact EventStore.has_iff.mpr ⟨row, hold, rfl⟩

theorem exists_rowOf (hash : EventContent → String) (batchKey : Option String) (store : EventStore)
    {event : EventIn} (h : event ∈ events) :
    ∃ row, rowOf hash batchKey store events event = some row := by
  obtain ⟨row, hrow, hkey⟩ :=
    EventStore.has_iff.mp ((store.inserted hash batchKey events).stored event h)
  exact ⟨row, EventStore.find?_eq_some_iff.mpr ⟨hrow, hkey⟩⟩

/-- A new event is flagged. -/
theorem mem_insertedKeys {event : EventIn} (h : event ∈ events)
    (hnew : ¬ store.Has (event.eventKey hash batchKey)) :
    idempotencyKeyOf hash batchKey event ∈ insertedKeys hash batchKey store events := by
  obtain ⟨row, hrow⟩ := exists_rowOf hash batchKey store h
  obtain ⟨hkey, hmem⟩ := mem_returning_of_rowOf hrow
  exact List.mem_map.mpr ⟨row, hmem.mpr hnew, congrArg Prod.snd hkey⟩

theorem map_eventKey_filterMap {l : List EventIn} (hl : l ⊆ events) :
    (l.filterMap (rowOf hash batchKey store events)).map EventRow.eventKey =
      l.map (EventIn.eventKey hash batchKey) := by
  induction l with
  | nil => rfl
  | cons e l ih =>
    obtain ⟨he, hl⟩ := List.cons_subset.mp hl
    obtain ⟨row, hrow⟩ := exists_rowOf hash batchKey store he
    rw [List.filterMap_cons_some hrow, List.map_cons, List.map_cons, ih hl,
      (mem_returning_of_rowOf hrow).1]

/-- Under distinct keys, the flagged rows are the inserted ones. -/
theorem DistinctBatch.perm (h : DistinctBatch hash batchKey store events) :
    (flaggedRows hash batchKey store events).Perm (store.returning hash batchKey events) := by
  have hinserted := store.inserted hash batchKey events
  have hfilter : events.filter (fun e ↦ idempotencyKeyOf hash batchKey e ∈
      insertedKeys hash batchKey store events) =
      events.filter fun e ↦ ¬ store.Has (e.eventKey hash batchKey) := by
    refine List.filter_congr fun e he ↦ decide_eq_decide.mpr ⟨fun hkey hhas ↦ ?_, fun hnew ↦ ?_⟩
    · obtain ⟨row, hrow, heq⟩ := List.mem_map.mp hkey
      obtain ⟨e', he', hkey', -⟩ := hinserted.source row hrow
      exact h.apart e he hhas e' he' (hkey' ▸ hinserted.fresh row hrow)
        ((congrArg Prod.snd hkey').symm.trans heq)
    · exact mem_insertedKeys he hnew
  rw [flaggedRows_eq, hfilter]
  have hsub : (events.filter fun e ↦ ¬ store.Has (e.eventKey hash batchKey)) ⊆ events :=
    List.filter_sublist.subset
  have hnodup := h.once
  rw [← map_eventKey_filterMap hsub] at hnodup
  have hkeys : (store.returning hash batchKey events).Nodup :=
    (nodup_returning hash batchKey store events).of_map _
  rw [List.perm_ext_iff_of_nodup (hnodup.of_map _) hkeys]
  intro row
  constructor
  · intro hmem
    obtain ⟨e, he, hrow⟩ := List.mem_filterMap.mp hmem
    exact (mem_returning_of_rowOf hrow).2.mpr (of_decide_eq_true (List.mem_filter.mp he).2)
  · intro hmem
    obtain ⟨e, he, hkey, -⟩ := hinserted.source row hmem
    refine List.mem_filterMap.mpr ⟨e, List.mem_filter.mpr ⟨he, ?_⟩, ?_⟩
    · exact decide_eq_true (hkey ▸ hinserted.fresh row hmem)
    · refine EventStore.find?_eq_some_iff.mpr ⟨?_, hkey⟩
      rw [hinserted.rows]
      exact List.mem_append_right _ hmem

/-- If every inserted row is flagged once and no other row is, the keys are distinct. -/
theorem distinctBatch_of_flagged
    (honce : ∀ row ∈ store.returning hash batchKey events,
      ((flaggedRows hash batchKey store events).map EventRow.id).count row.id = 1)
    (honly : ∀ id ∈ (flaggedRows hash batchKey store events).map EventRow.id,
      ∃ row ∈ store.returning hash batchKey events, row.id = id) :
    DistinctBatch hash batchKey store events := by
  have hinserted := store.inserted hash batchKey events
  have hinj {row row' : EventRow} (hrow : row ∈ (store.insertAll hash batchKey events).rows)
      (hrow' : row' ∈ (store.insertAll hash batchKey events).rows) (heq : row.id = row'.id) :
      row = row' :=
    List.inj_on_of_nodup_map (store.insertAll hash batchKey events).ids hrow hrow' heq
  have hreturned {row : EventRow} (hrow : row ∈ store.returning hash batchKey events) :
      row ∈ (store.insertAll hash batchKey events).rows := by
    rw [hinserted.rows]
    exact List.mem_append_right _ hrow
  rw [flaggedRows_eq] at honce honly
  constructor
  · have hsub : (events.filter fun e ↦ ¬ store.Has (e.eventKey hash batchKey)) ⊆ events :=
      List.filter_sublist.subset
    have hflagged : (events.filter fun e ↦ ¬ store.Has (e.eventKey hash batchKey)) =
        (events.filter fun e ↦ idempotencyKeyOf hash batchKey e ∈
          insertedKeys hash batchKey store events).filter fun e ↦
            ¬ store.Has (e.eventKey hash batchKey) := by
      rw [List.filter_filter]
      refine List.filter_congr fun e he ↦ ?_
      by_cases hnew : store.Has (e.eventKey hash batchKey)
      · simp [hnew]
      · simp [hnew, mem_insertedKeys he hnew]
    have hsublist : ((events.filter fun e ↦ ¬ store.Has (e.eventKey hash batchKey)).filterMap
        (rowOf hash batchKey store events)).Sublist
        ((events.filter fun e ↦ idempotencyKeyOf hash batchKey e ∈
          insertedKeys hash batchKey store events).filterMap
            (rowOf hash batchKey store events)) := by
      rw [hflagged]
      exact List.filter_sublist.filterMap _
    have hids : (((events.filter fun e ↦ ¬ store.Has (e.eventKey hash batchKey)).filterMap
        (rowOf hash batchKey store events)).map EventRow.id).Nodup := by
      refine List.nodup_iff_count_le_one.mpr fun id ↦ ?_
      refine ((hsublist.map EventRow.id).count_le id).trans ?_
      by_cases hid : id ∈ ((events.filter fun e ↦ idempotencyKeyOf hash batchKey e ∈
          insertedKeys hash batchKey store events).filterMap
            (rowOf hash batchKey store events)).map EventRow.id
      · obtain ⟨row, hrow, rfl⟩ := honly id hid
        exact (honce row hrow).le
      · exact (List.count_eq_zero.mpr hid).le.trans (Nat.zero_le _)
    rw [← map_eventKey_filterMap hsub]
    refine (hids.of_map _).map_on fun row hrow row' hrow' heq ↦ ?_
    refine List.inj_on_of_nodup_map (store.insertAll hash batchKey events).keys ?_ ?_ heq
    · obtain ⟨e, -, he⟩ := List.mem_filterMap.mp hrow
      exact (EventStore.find?_eq_some_iff.mp he).1
    · obtain ⟨e, -, he⟩ := List.mem_filterMap.mp hrow'
      exact (EventStore.find?_eq_some_iff.mp he).1
  · intro e he hhas e' he' hnew heq
    obtain ⟨row, hrow⟩ := exists_rowOf hash batchKey store he
    obtain ⟨hkey, hmem⟩ := mem_returning_of_rowOf hrow
    have hflagged : idempotencyKeyOf hash batchKey e ∈ insertedKeys hash batchKey store events :=
      heq ▸ mem_insertedKeys he' hnew
    obtain ⟨row', hrow', hid⟩ := honly row.id (List.mem_map_of_mem (List.mem_filterMap.mpr
      ⟨e, List.mem_filter.mpr ⟨he, decide_eq_true hflagged⟩, hrow⟩))
    obtain rfl := hinj (hreturned hrow') (EventStore.find?_eq_some_iff.mp hrow).1 hid
    exact hmem.mp hrow' hhas

end Results

/-! ## Charges -/

/-- The debits of an account. -/
def Account.debits (a : Account) : Nat := a.transactions.countP (·.reason = .captureDebit)

section Charges

variable {now : Timestamp} {freeMonthlyCredits : Int} {accounts accounts' : String → Option Account}

theorem Account.debits_post (a : Account) (now : Timestamp) (reason : CreditReason)
    (reference : Option CreditReference) (balance : Int) :
    (a.post now reason reference balance).debits =
      a.debits + if reason = .captureDebit then 1 else 0 := by
  simp [Account.debits, Account.post, List.countP_cons]

theorem Account.debits_maybeGrant {a b : Account}
    (h : a.maybeGrantLazyFreeCredits now freeMonthlyCredits = .ok b) : b.debits = a.debits := by
  rw [Account.maybeGrantLazyFreeCredits] at h
  split at h
  · obtain ⟨granted, hgranted, h⟩ := Control.bind_eq_ok.mp h
    rw [Account.grantCredits] at hgranted
    split at hgranted
    · cases hgranted
    · obtain rfl := Except.ok.inj hgranted
      obtain rfl := Except.ok.inj h
      exact Account.debits_post ..
  · rw [Except.ok.inj h]

theorem Account.debits_tryDebit {a b : Account} {reference : Option CreditReference}
    (h : a.tryDebitCredit now .captureDebit reference = .ok b) : b.debits = a.debits + 1 := by
  rw [Account.tryDebitCredit] at h
  split at h
  · cases h
  · obtain rfl := Except.ok.inj h
    exact Account.debits_post ..

/-- One result costs its organization one credit when it is new. -/
theorem chargeEvent_debits {r : EventRow × Bool}
    (h : chargeEvent now freeMonthlyCredits accounts r = .ok accounts') (org : String) :
    ∀ a, accounts org = some a → ∃ a', accounts' org = some a' ∧
      a'.debits = a.debits + if !r.2 ∧ r.1.content.orgId = org then 1 else 0 := by
  intro a ha
  rw [chargeEvent] at h
  split at h
  · next hdup =>
    obtain rfl := Except.ok.inj h
    exact ⟨a, ha, by simp [hdup]⟩
  · next hnew =>
    split at h
    · next hnone =>
      obtain rfl := Except.ok.inj h
      refine ⟨a, ha, ?_⟩
      rw [if_neg, Nat.add_zero]
      rintro ⟨-, rfl⟩
      rw [hnone] at ha
      cases ha
    · next account haccount =>
      obtain ⟨granted, hgranted, h⟩ := Control.bind_eq_ok.mp h
      obtain ⟨debited, hdebited, h⟩ := Control.bind_eq_ok.mp h
      obtain rfl := Except.ok.inj h
      by_cases horg : r.1.content.orgId = org
      · subst horg
        obtain rfl := Option.some.inj (ha.symm.trans haccount)
        refine ⟨debited, Function.update_self .., ?_⟩
        rw [Account.debits_tryDebit hdebited, Account.debits_maybeGrant hgranted,
          if_pos ⟨by simp [hnew], rfl⟩]
      · refine ⟨a, ?_, by simp [horg]⟩
        rwa [Function.update_of_ne (Ne.symm horg)]

/-- All results cost an organization one credit for each row that is flagged as new. -/
theorem charge_debits {results : List (EventRow × Bool)}
    (h : results.foldlM (chargeEvent now freeMonthlyCredits) accounts = .ok accounts')
    (org : String) :
    ∀ a, accounts org = some a → ∃ a', accounts' org = some a' ∧ a'.debits =
      a.debits + results.countP fun r ↦ !r.2 ∧ r.1.content.orgId = org := by
  induction results generalizing accounts with
  | nil =>
    intro a ha
    obtain rfl := Except.ok.inj h
    exact ⟨a, ha, rfl⟩
  | cons r results ih =>
    intro a ha
    rw [List.foldlM_cons] at h
    obtain ⟨middle, hr, hresults⟩ := Control.bind_eq_ok.mp h
    obtain ⟨b, hb, hdebits⟩ := chargeEvent_debits hr org a ha
    obtain ⟨a', ha', hdebits'⟩ := ih hresults b hb
    refine ⟨a', ha', ?_⟩
    rw [hdebits', hdebits, List.countP_cons]
    simp only [decide_eq_true_eq]
    omega

end Charges

/-! ## Captures -/

/-- The ids a response does not flag as duplicates. -/
def CaptureResponse.accepted (response : CaptureResponse) : List EventId :=
  (response.events.filter fun e ↦ !e.2).map Prod.fst

/-- The rows a capture inserted. -/
def CaptureState.inserted (s s' : CaptureState) : List EventRow :=
  s'.events.rows.drop s.events.rows.length

/-- Every inserted row is flagged, enqueued and charged once, and nothing else is. -/
structure Accounted (s : CaptureState) (response : CaptureResponse) (s' : CaptureState) : Prop where
  count : response.accepted.length = (s.inserted s').length
  flagged : ∀ row ∈ s.inserted s', response.accepted.count row.id = 1
  enqueued : ∀ row ∈ s.inserted s', (response.consolidationJob.getD []).count row.id = 1
  onlyInserted : ∀ id ∈ response.consolidationJob.getD [], ∃ row ∈ s.inserted s', row.id = id
  charged : ∀ org a, s.accounts org = some a → ∃ a', s'.accounts org = some a' ∧
    a'.debits = a.debits + (s.inserted s').countP (·.content.orgId = org)

section Capture

variable {hash : EventContent → String} {now : Timestamp} {freeMonthlyCredits : Int}
  {batchKey : Option String} {events : List EventIn} {s s' : CaptureState}
  {response : CaptureResponse}

/-- What a capture that is not refused does. -/
theorem capture_eq_ok
    (h : capture hash now freeMonthlyCredits batchKey events s = .ok (response, s')) :
    s.inserted s' = s.events.returning hash batchKey events ∧
      response.accepted = (flaggedRows hash batchKey s.events events).map EventRow.id ∧
      response.consolidationJob.getD [] =
        (flaggedRows hash batchKey s.events events).map EventRow.id ∧
      (s.events.writeEvents hash batchKey events).foldlM (chargeEvent now freeMonthlyCredits)
        s.accounts = .ok s'.accounts := by
  rw [capture] at h
  split at h
  · cases h
  · obtain ⟨accounts, hcharges, h⟩ := Control.bind_eq_ok.mp h
    obtain ⟨rfl, rfl⟩ := Prod.mk.inj (Except.ok.inj h)
    refine ⟨rfl, ?_, ?_, ?_⟩
    · rw [CaptureResponse.accepted, flaggedRows]
      generalize s.events.writeEvents hash batchKey events = results
      induction results with
      | nil => rfl
      | cons r results ih => cases hr : r.2 <;> simp [hr] <;> simpa using ih
    · have hids : (flaggedRows hash batchKey s.events events).map EventRow.id =
          ((s.events.writeEvents hash batchKey events).filter fun r ↦ !r.2).map fun r ↦ r.1.id :=
        List.map_map ..
      rw [hids]
      dsimp only
      split
      · next hnil => rw [hnil]; rfl
      · rfl
    · cases hfold : (s.events.writeEvents hash batchKey events).foldlM
          (chargeEvent now freeMonthlyCredits) s.accounts with
      | error e =>
        rw [hfold] at hcharges
        cases hcharges
      | ok result =>
        rw [hfold] at hcharges
        exact congrArg Except.ok (Except.ok.inj hcharges)


/-- **Intake.**  A capture accounts for every stored event exactly once exactly when the keys of its
batch are distinct. -/
theorem capture_accounted_iff
    (h : capture hash now freeMonthlyCredits batchKey events s = .ok (response, s')) :
    Accounted s response s' ↔ DistinctBatch hash batchKey s.events events := by
  obtain ⟨hinserted, haccepted, hjob, hcharges⟩ := capture_eq_ok h
  constructor
  · intro haccounted
    refine distinctBatch_of_flagged ?_ ?_
    · rw [← hinserted, ← haccepted]
      exact haccounted.flagged
    · rw [← hinserted, ← hjob]
      exact haccounted.onlyInserted
  · intro hdistinct
    have hperm := hdistinct.perm
    rw [← hinserted] at hperm
    have hids := hperm.map EventRow.id
    have honce : ∀ row ∈ s.inserted s',
        ((flaggedRows hash batchKey s.events events).map EventRow.id).count row.id = 1 := by
      intro row hrow
      rw [hids.count_eq]
      refine List.count_eq_one_of_mem ?_ (List.mem_map_of_mem hrow)
      rw [hinserted]
      exact nodup_returning hash batchKey s.events events
    refine ⟨?_, ?_, ?_, ?_, ?_⟩
    · rw [haccepted, List.length_map, hperm.length_eq]
    · rwa [haccepted]
    · rwa [hjob]
    · rw [hjob]
      intro id hid
      obtain ⟨row, hrow, rfl⟩ := List.mem_map.mp (hids.mem_iff.mp hid)
      exact ⟨row, hrow, rfl⟩
    · intro org a ha
      obtain ⟨a', ha', hdebits⟩ := charge_debits hcharges org a ha
      refine ⟨a', ha', ?_⟩
      rw [hdebits, ← hperm.countP_eq, flaggedRows, List.countP_map, List.countP_filter]
      congr 1
      refine List.countP_congr fun r _ ↦ ?_
      simp [and_comm]

end Capture

/-! ## Samples -/

namespace Sample

/-- An event of a subject, under a key of the caller. -/
def note (key : String) : EventIn where
  orgId := "org"
  projectId := "project"
  subjectType := "user"
  subjectId := "subject"
  kind := "note"
  occurredAt := 0
  payload := .empty
  threadId := none
  runId := none
  idempotencyKey := some key

/-- A subscribed organization with ten credits. -/
def account : Account where
  org := ⟨10, none, some "active", some "starter", none⟩
  transactions := []

/-- Nothing is stored. -/
def intake : CaptureState where
  events := ⟨[], 0, List.nodup_nil, List.nodup_nil, by rintro _ ⟨⟩⟩
  accounts org := if org = "org" then some account else none
  jobs := []

/-- The capture of two events under the given keys. -/
def captureTwo (first second : String) : Except CaptureError (CaptureResponse × CaptureState) :=
  capture (fun _ ↦ "hash") 0 1000 none [note first, note second] intake

end Sample

/-- Two events under different keys. -/
theorem capture_accounted_two :
    ∃ response s', Sample.captureTwo "a" "b" = .ok (response, s') ∧
      Accounted Sample.intake response s' := by
  have hdistinct : DistinctBatch (fun _ ↦ "hash") none Sample.intake.events
      [Sample.note "a", Sample.note "b"] := by
    refine ⟨by decide, ?_⟩
    intro e _ hhas
    cases hhas
  have hcapture : ∃ result, Sample.captureTwo "a" "b" = .ok result := ⟨_, rfl⟩
  obtain ⟨⟨response, s'⟩, hcapture⟩ := hcapture
  exact ⟨response, s', hcapture, (capture_accounted_iff hcapture).mpr hdistinct⟩

/-- One event sent twice in a batch is stored once, and enqueued and charged twice. -/
theorem repeated_event_charged_twice :
    ∃ response s', Sample.captureTwo "a" "a" = .ok (response, s') ∧
      (Sample.intake.inserted s').length = 1 ∧ response.consolidationJob = some [0, 0] ∧
      ((s'.accounts "org").map Account.debits) = some 2 ∧
      ¬ Accounted Sample.intake response s' := by
  refine ⟨_, _, rfl, rfl, rfl, rfl, fun h ↦ ?_⟩
  exact absurd h.count (by decide)

end Haki
