import Haki.Api.Gateway
import Haki.Properties.Intake

/-!
# Turns the gateway stores

The default key of a turn is the digest of the request body, and the body does
not say whose turn it is, nor when it was taken.  Two turns with one body are
one event, whoever took them.
-/

namespace Haki

open Data

namespace GatewayRequest.Replays

variable {r s t : GatewayRequest}

theorem refl (r : GatewayRequest) : r.Replays r := ⟨rfl, rfl, rfl, rfl, rfl⟩

theorem symm (h : r.Replays s) : s.Replays r :=
  ⟨h.exchange.symm, h.rawBody.symm, h.subjectId.symm, h.threadId.symm, h.runId.symm⟩

theorem trans (h : r.Replays s) (h' : s.Replays t) : r.Replays t :=
  ⟨h.exchange.trans h'.exchange, h.rawBody.trans h'.rawBody, h.subjectId.trans h'.subjectId,
    h.threadId.trans h'.threadId, h.runId.trans h'.runId⟩

end GatewayRequest.Replays

/-! ## One turn -/

section Turns

variable {hash : EventContent → String} {store : EventStore}
  {turns : List (GatewayRequest × EventIn)} {t : GatewayRequest × EventIn}

/-- A turn is stored when its key is not. -/
theorem writeEvents_singleton (hash : EventContent → String) (store : EventStore) (event : EventIn) :
    (store.writeEvents hash none [event]).any (fun result ↦ !result.2) =
      decide (¬ store.Has (event.eventKey hash none)) := by
  have hinserted := store.inserted hash none [event]
  rw [Bool.eq_iff_iff, List.any_eq_true, decide_eq_true_iff]
  constructor
  · rintro ⟨result, hmem, hnew⟩ hhas
    obtain ⟨e, he, hrow⟩ := List.mem_filterMap.mp hmem
    obtain rfl := List.mem_singleton.mp he
    obtain ⟨row, -, rfl⟩ := Option.map_eq_some_iff.mp hrow
    obtain ⟨other, hother, -⟩ : ∃ row ∈ store.returning hash none [e],
        row.idempotencyKey = idempotencyKeyOf hash none e := by simpa using hnew
    obtain ⟨e', he', hkey, -⟩ := hinserted.source other hother
    obtain rfl := List.mem_singleton.mp he'
    exact hinserted.fresh other hother (hkey ▸ hhas)
  · intro hnew
    obtain ⟨row, hrow, hkey⟩ := EventStore.has_iff.mp (hinserted.stored event (by simp))
    have hmem : row ∈ store.returning hash none [event] := by
      rw [hinserted.rows] at hrow
      refine (List.mem_append.mp hrow).resolve_left fun hold ↦ hnew ?_
      exact EventStore.has_iff.mpr ⟨row, hold, hkey⟩
    refine ⟨(row, false), List.mem_filterMap.mpr ⟨event, by simp, ?_⟩, rfl⟩
    rw [EventStore.find?_eq_some_iff.mpr ⟨hrow, hkey⟩, Option.map_some]
    refine congrArg some (Prod.ext rfl (decide_eq_false ?_))
    exact not_not.mpr (List.mem_map.mpr ⟨row, hmem, congrArg Prod.snd hkey⟩)

/-- After a turn, its key is stored, and so is everything that was. -/
theorem has_insertAll_singleton {event : EventIn} {k : EventKey} :
    (store.insertAll hash none [event]).Has k ↔ store.Has k ∨ k = event.eventKey hash none := by
  have hinserted := store.inserted hash none [event]
  constructor
  · intro h
    rw [EventStore.Has, hinserted.rows, List.map_append] at h
    refine (List.mem_append.mp h).imp_right fun hnew ↦ ?_
    obtain ⟨row, hrow, rfl⟩ := List.mem_map.mp hnew
    obtain ⟨e, he, hkey, -⟩ := hinserted.source row hrow
    rw [hkey, List.mem_singleton.mp he]
  · rintro (h | rfl)
    · rw [EventStore.Has, hinserted.rows, List.map_append]
      exact List.mem_append_left _ h
    · exact hinserted.stored event (List.mem_singleton_self _)

/-! ## Sequences of turns -/

/-- The keys of a sequence of turns. -/
abbrev keyOfTurn (hash : EventContent → String) (t : GatewayRequest × EventIn) : EventKey :=
  t.2.eventKey hash none

/-- Every turn is stored, unless its key was: in the store, or by a turn before it. -/
theorem exists_stored (hash : EventContent → String) (store : EventStore) (ht : t ∈ turns) :
    store.Has (keyOfTurn hash t) ∨ ∃ u ∈ turns, (u.1, true) ∈ storeTurns hash store turns ∧
      keyOfTurn hash u = keyOfTurn hash t := by
  induction turns generalizing store with
  | nil => cases ht
  | cons u turns ih =>
    by_cases hu : store.Has (keyOfTurn hash u)
    · rcases List.mem_cons.mp ht with rfl | ht
      · exact .inl hu
      · rcases @ih (store.insertAll hash none [u.2]) ht with h | ⟨v, hv, hstored, hkey⟩
        · rcases has_insertAll_singleton.mp h with h | h
          · exact .inl h
          · exact .inl (h ▸ hu)
        · exact .inr ⟨v, List.mem_cons_of_mem _ hv, List.mem_cons_of_mem _ hstored, hkey⟩
    · have hfirst : (u.1, true) ∈ storeTurns hash store (u :: turns) := by
        rw [storeTurns, writeEvents_singleton, decide_eq_true hu]
        exact List.mem_cons_self
      rcases List.mem_cons.mp ht with rfl | ht
      · exact .inr ⟨t, List.mem_cons_self, hfirst, rfl⟩
      · rcases @ih (store.insertAll hash none [u.2]) ht with h | ⟨v, hv, hstored, hkey⟩
        · rcases has_insertAll_singleton.mp h with h | h
          · exact .inl h
          · exact .inr ⟨u, List.mem_cons_self, hfirst, h.symm⟩
        · exact .inr ⟨v, List.mem_cons_of_mem _ hv, List.mem_cons_of_mem _ hstored, hkey⟩

/-- A request whose turn is stored has a turn whose key was not. -/
theorem turn_of_stored {r : GatewayRequest} (h : (r, true) ∈ storeTurns hash store turns) :
    ∃ u ∈ turns, u.1 = r ∧ ¬ store.Has (keyOfTurn hash u) := by
  induction turns generalizing store with
  | nil => cases h
  | cons u turns ih =>
    rcases List.mem_cons.mp h with h | h
    · obtain ⟨hr, hnew⟩ := Prod.mk.inj h
      rw [writeEvents_singleton] at hnew
      exact ⟨u, List.mem_cons_self, hr.symm, of_decide_eq_true hnew.symm⟩
    · obtain ⟨v, hv, hr, hnew⟩ := ih h
      refine ⟨v, List.mem_cons_of_mem _ hv, hr, fun hhas ↦ hnew ?_⟩
      exact has_insertAll_singleton.mpr (.inl hhas)

/-- No key is stored twice. -/
theorem stored_unique {key : GatewayRequest → EventKey}
    (hkey : ∀ u ∈ turns, keyOfTurn hash u = key u.1) {r r' : GatewayRequest}
    (h : (r, true) ∈ storeTurns hash store turns) (h' : (r', true) ∈ storeTurns hash store turns)
    (heq : key r = key r') : r = r' := by
  induction turns generalizing store with
  | nil => cases h
  | cons u turns ih =>
    have hkey' : ∀ v ∈ turns, keyOfTurn hash v = key v.1 :=
      fun v hv ↦ hkey v (List.mem_cons_of_mem _ hv)
    -- a turn after `u` is not stored under the key of `u`
    have hlater {q : GatewayRequest}
        (hq : (q, true) ∈ storeTurns hash (store.insertAll hash none [u.2]) turns) :
        key q ≠ key u.1 := by
      intro hsame
      obtain ⟨v, hv, rfl, hnew⟩ := turn_of_stored hq
      refine hnew (has_insertAll_singleton.mpr (.inr ?_))
      rw [hkey' v hv, hsame, ← hkey u List.mem_cons_self]
    rcases List.mem_cons.mp h with h | h <;> rcases List.mem_cons.mp h' with h' | h'
    · exact (Prod.mk.inj h).1.trans (Prod.mk.inj h').1.symm
    · obtain ⟨rfl, -⟩ := Prod.mk.inj h
      exact absurd heq.symm (hlater h')
    · obtain ⟨rfl, -⟩ := Prod.mk.inj h'
      exact absurd heq (hlater h)
    · exact ih hkey' h h'

end Turns

/-! ## Suppression -/

/-- A turn is stored: under the request itself or one it replays. -/
def Stored (outcomes : List (GatewayRequest × Bool)) (r : GatewayRequest) : Prop :=
  ∃ o ∈ outcomes, o.1.Replays r ∧ o.2 = true

/-- Two turns that are not one request sent again are both stored. -/
def NoSuppression (outcomes : List (GatewayRequest × Bool)) : Prop :=
  ∀ o ∈ outcomes, ∀ o' ∈ outcomes, ¬ o.1.Replays o'.1 →
    Stored outcomes o.1 ∧ Stored outcomes o'.1

section Suppression

variable {env : GatewayEnv} {hash : EventContent → String} {store : EventStore}
  {orgId projectId : String} {requests : List GatewayRequest} {t : GatewayRequest × EventIn}

theorem storeTurns_requests (hash : EventContent → String) (store : EventStore)
    (turns : List (GatewayRequest × EventIn)) :
    (storeTurns hash store turns).map Prod.fst = turns.map Prod.fst := by
  induction turns generalizing store with
  | nil => rfl
  | cons u turns ih => rw [storeTurns, List.map_cons, List.map_cons, ih]

theorem mem_turns_iff : t ∈ env.turns orgId projectId requests ↔
    t.1 ∈ requests ∧ env.capturedTurn orgId projectId t.1 = some t.2 := by
  rw [GatewayEnv.turns, List.mem_filterMap]
  constructor
  · rintro ⟨r, hr, h⟩
    obtain ⟨event, hevent, rfl⟩ := Option.map_eq_some_iff.mp h
    exact ⟨hr, hevent⟩
  · rintro ⟨hr, h⟩
    exact ⟨t.1, hr, by rw [h, Option.map_some]⟩

/-- The event of a request is stored under the key of the request. -/
theorem capturedTurn_key {r : GatewayRequest} {event : EventIn}
    (h : env.capturedTurn orgId projectId r = some event) :
    event.projectId = projectId ∧ event.idempotencyKey = some (env.keyOf r) := by
  rw [GatewayEnv.capturedTurn] at h
  split at h
  · split at h
    · simp only [Option.bind_eq_bind, Option.bind_eq_some_iff] at h
      obtain ⟨subjectId, -, userText, -, traceId, -, assistantText, -, h⟩ := h
      split at h
      · cases h
        exact ⟨rfl, rfl⟩
      · cases h
    · cases h
  · cases h

/-- The default key is never empty. -/
theorem orKey_default (rawBody : String) :
    orKey (some (env.defaultIdempotencyKey rawBody)) =
      some (env.defaultIdempotencyKey rawBody) := by
  have hne : env.defaultIdempotencyKey rawBody ≠ "" := by
    intro h
    have hlength := congrArg String.length h
    rw [GatewayEnv.defaultIdempotencyKey, String.length_append] at hlength
    exact absurd hlength (by simp)
  rw [orKey, if_neg hne]

/-- Without a key of its own, a turn is stored under the digest of its body. -/
theorem keyOfTurn_default (hnokey : ∀ r ∈ requests, orKey r.idempotencyKey = none)
    (ht : t ∈ env.turns orgId projectId requests) :
    keyOfTurn hash t = (projectId, env.defaultIdempotencyKey t.1.rawBody) := by
  obtain ⟨hr, hcaptured⟩ := mem_turns_iff.mp ht
  obtain ⟨hproject, hkey⟩ := capturedTurn_key hcaptured
  rw [GatewayEnv.keyOf, hnokey _ hr, Option.getD_none] at hkey
  rw [keyOfTurn, EventIn.eventKey, hproject, idempotencyKeyOf, hkey, orKey_default]
  rfl

/-- Two turns with one key are one request sent again, and no key is stored before. -/
structure DistinctBodies (env : GatewayEnv) (projectId : String) (store : EventStore)
    (turns : List (GatewayRequest × EventIn)) : Prop where
  fresh : ∀ t ∈ turns, ¬ store.Has (projectId, env.defaultIdempotencyKey t.1.rawBody)
  apart : ∀ t ∈ turns, ∀ u ∈ turns, env.defaultIdempotencyKey t.1.rawBody =
    env.defaultIdempotencyKey u.1.rawBody → t.1.Replays u.1

/-- No turn suppresses another exactly when all turns are one request sent again, or no two of them
share a body. -/
theorem noSuppression_iff (hnokey : ∀ r ∈ requests, orKey r.idempotencyKey = none) :
    NoSuppression (storeTurns hash store (env.turns orgId projectId requests)) ↔
      (∀ t ∈ env.turns orgId projectId requests, ∀ u ∈ env.turns orgId projectId requests,
        t.1.Replays u.1) ∨
      DistinctBodies env projectId store (env.turns orgId projectId requests) := by
  set turns := env.turns orgId projectId requests with hturns
  set key : GatewayRequest → EventKey :=
    fun r ↦ (projectId, env.defaultIdempotencyKey r.rawBody) with hkeydef
  have hkey : ∀ u ∈ turns, keyOfTurn hash u = key u.1 := fun u hu ↦ keyOfTurn_default hnokey hu
  have hmem {r : GatewayRequest} :
      (∃ o ∈ storeTurns hash store turns, o.1 = r) ↔ ∃ u ∈ turns, u.1 = r := by
    rw [← List.mem_map, storeTurns_requests, List.mem_map]
  constructor
  · intro hno
    refine or_iff_not_imp_left.mpr fun hdistinct ↦ ?_
    push Not at hdistinct
    obtain ⟨t, ht, u, hu, htu⟩ := hdistinct
    -- every turn differs from one of two turns that are not replays
    have hall (v : GatewayRequest × EventIn) (hv : v ∈ turns) :
        ∃ r, (r, true) ∈ storeTurns hash store turns ∧ r.Replays v.1 := by
      suffices h : Stored (storeTurns hash store turns) v.1 by
        obtain ⟨⟨r, stored⟩, hr, hreplays, rfl⟩ := h
        exact ⟨r, hr, hreplays⟩
      obtain ⟨o, ho, hov⟩ := hmem.mpr ⟨v, hv, rfl⟩
      obtain ⟨w, hw, hdiffers⟩ : ∃ w ∈ turns, ¬ v.1.Replays w.1 := by
        by_cases hvt : v.1.Replays t.1
        · exact ⟨u, hu, fun hvu ↦ htu (hvt.symm.trans hvu)⟩
        · exact ⟨t, ht, hvt⟩
      obtain ⟨o', ho', how⟩ := hmem.mpr ⟨w, hw, rfl⟩
      have := (hno o ho o' ho' (by rwa [hov, how])).1
      rwa [hov] at this
    refine ⟨fun v hv hhas ↦ ?_, fun v hv w hw heq ↦ ?_⟩
    · obtain ⟨r, hr, hreplays⟩ := hall v hv
      obtain ⟨x, hx, rfl, hnew⟩ := turn_of_stored hr
      refine hnew ?_
      rw [hkey x hx]
      simpa only [hkeydef, hreplays.rawBody] using hhas
    · obtain ⟨r, hr, hreplays⟩ := hall v hv
      obtain ⟨r', hr', hreplays'⟩ := hall w hw
      have hsame : key r = key r' := by
        simp only [hkeydef, hreplays.rawBody, hreplays'.rawBody, heq]
      obtain rfl := stored_unique hkey hr hr' hsame
      exact hreplays.symm.trans hreplays'
  · rintro (hsame | hdistinct) o ho o' ho' hdiffers
    · obtain ⟨t, ht, hto⟩ := hmem.mp ⟨o, ho, rfl⟩
      obtain ⟨u, hu, huo⟩ := hmem.mp ⟨o', ho', rfl⟩
      exact absurd (hto ▸ huo ▸ hsame t ht u hu) hdiffers
    · have hstored {o : GatewayRequest × Bool} (ho : o ∈ storeTurns hash store turns) :
          Stored (storeTurns hash store turns) o.1 := by
        obtain ⟨t, ht, hto⟩ := hmem.mp ⟨o, ho, rfl⟩
        rcases exists_stored hash store ht with h | ⟨u, hu, hstored, hsame⟩
        · rw [hkey t ht] at h
          exact absurd h (hdistinct.fresh t ht)
        · refine ⟨_, hstored, ?_, rfl⟩
          rw [hkey t ht, hkey u hu] at hsame
          exact hto ▸ hdistinct.apart u hu t ht (Prod.mk.inj hsame).2
      exact ⟨hstored ho, hstored ho'⟩

end Suppression

/-! ## Samples -/

namespace Sample

/-- The message of a subject, as the body of a request. -/
def chat (rawBody subjectId : String) : GatewayRequest where
  exchange := 0
  rawBody := rawBody
  subjectId := some subjectId
  threadId := none
  runId := none
  idempotencyKey := none
  now := 0
  traceId := some "trace"
  upstream := some (200, some "done")

/-- Every body is one message of a user; the digest of a body is the body. -/
def gateway : GatewayEnv where
  loads rawBody := some (.obj [("messages", .arr [GatewayEnv.turnMessage "user" rawBody])])
  sha256 := id
  admits _ := true

/-- What becomes of a sequence of requests, when nothing is stored. -/
def chats (requests : List GatewayRequest) : List (GatewayRequest × Bool) :=
  storeTurns (fun _ ↦ "hash") Sample.intake.events (gateway.turns "org" "project" requests)

end Sample

/-- Two messages of two subjects are both stored. -/
theorem noSuppression_two :
    NoSuppression (Sample.chats [Sample.chat "yes" "alice", Sample.chat "no" "bob"]) := by
  refine (noSuppression_iff (by decide)).mpr (.inr ⟨fun t _ hhas ↦ ?_, ?_⟩)
  · cases hhas
  · intro t ht u hu heq
    obtain ⟨ht, -⟩ := mem_turns_iff.mp ht
    obtain ⟨hu, -⟩ := mem_turns_iff.mp hu
    simp only [List.mem_cons, List.not_mem_nil, or_false] at ht hu
    rcases ht with ht | ht <;> rcases hu with hu | hu <;> rw [ht, hu] at heq ⊢
    · exact .refl _
    · exact absurd heq (by decide)
    · exact absurd heq (by decide)
    · exact .refl _

/-- The same message of two subjects is stored for the first. -/
theorem same_body_suppressed :
    (Sample.chats [Sample.chat "yes" "alice", Sample.chat "yes" "bob"]).map Prod.snd =
        [true, false] ∧
      ¬ NoSuppression (Sample.chats [Sample.chat "yes" "alice", Sample.chat "yes" "bob"]) := by
  have houtcomes : Sample.chats [Sample.chat "yes" "alice", Sample.chat "yes" "bob"] =
      [(Sample.chat "yes" "alice", true), (Sample.chat "yes" "bob", false)] := by
    rfl
  rw [houtcomes]
  refine ⟨rfl, fun h ↦ ?_⟩
  have hdiffers : ¬ (Sample.chat "yes" "alice").Replays (Sample.chat "yes" "bob") :=
    fun h ↦ absurd h.subjectId (by decide)
  obtain ⟨-, o, ho, hreplays, hstored⟩ :=
    h _ List.mem_cons_self (Sample.chat "yes" "bob", false) (by simp) hdiffers
  simp only [List.mem_cons, List.not_mem_nil, or_false] at ho
  rcases ho with rfl | rfl
  · exact hdiffers hreplays
  · cases hstored

end Haki
