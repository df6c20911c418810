import Haki.Ledger.EventHash

/-!
# Keys of a batch

The key of an event keyed by its content is one text around its hash, so it is
as long as that text leaves it and as telling as the hash is.  A batch key may
be as long as the column, which leaves no room for the hash behind it.
-/

namespace Haki

open Data

/-! ## Keys that compose -/

namespace CaptureRequest

/-- The key of the event is composed from its content. -/
def KeyedByContent (request : CaptureRequest) (event : RequestEvent) : Prop :=
  orKey request.idempotencyKey = none → orKey event.idempotencyKey = none

/-- Every key fits its column, and tells contents apart. -/
structure KeysCompose (sha256 : String → String) (request : CaptureRequest) : Prop where
  fits : ∀ event ∈ request.events, (request.keyOf sha256 event).length ≤ idempotencyKeyWidth
  composed : ∀ a ∈ request.events, ∀ b ∈ request.events,
    request.KeyedByContent a → request.KeyedByContent b →
      (request.keyOf sha256 a = request.keyOf sha256 b ↔ a.canonicalContent = b.canonicalContent)

/-- The contents a request hashes. -/
def contents (request : CaptureRequest) : Set String :=
  {text | ∃ event ∈ request.events, event.canonicalContent = text}

end CaptureRequest

section

variable {sha256 : String → String} {request : CaptureRequest} {event a b : RequestEvent}
  {key : String}

/-! ## The three rules -/

theorem orKey_eq_some {o : Option String} (h : orKey o = some key) : o = some key := by
  cases o with
  | none => cases h
  | some s =>
    rw [orKey] at h
    split at h
    · cases h
    · exact h

theorem computeEventHash_canonicalContent (sha256 : String → String) (event : RequestEvent) :
    computeEventHash sha256 event.occurredAtIso event.toEventContent =
      "sha256:" ++ sha256 event.canonicalContent := rfl

theorem length_computeEventHash (hlen : ∀ s, (sha256 s).length = 64) (occurredAt : String)
    (content : EventContent) : (computeEventHash sha256 occurredAt content).length = 71 := by
  rw [computeEventHash, String.length_append, hlen]
  rfl

namespace CaptureRequest

theorem keyOf_batch (h : orKey request.idempotencyKey = some key) (event : RequestEvent) :
    request.keyOf sha256 event =
      key ++ ":" ++ computeEventHash sha256 event.occurredAtIso event.toEventContent := by
  rw [keyOf, idempotencyKeyOf, h]

theorem keyOf_own (hbatch : orKey request.idempotencyKey = none)
    (h : orKey event.idempotencyKey = some key) : request.keyOf sha256 event = key := by
  rw [keyOf, idempotencyKeyOf, hbatch, h]

theorem keyOf_default (hbatch : orKey request.idempotencyKey = none)
    (h : orKey event.idempotencyKey = none) :
    request.keyOf sha256 event =
      computeEventHash sha256 event.occurredAtIso event.toEventContent ++ ":" ++
        event.subjectId := by
  rw [keyOf, idempotencyKeyOf, hbatch, h]

/-! ## Lengths -/

theorem length_keyOf_batch (hlen : ∀ s, (sha256 s).length = 64)
    (h : orKey request.idempotencyKey = some key) (event : RequestEvent) :
    (request.keyOf sha256 event).length = key.length + 72 := by
  rw [keyOf_batch h, String.length_append, String.length_append, length_computeEventHash hlen]
  rfl

theorem length_keyOf_default (hlen : ∀ s, (sha256 s).length = 64)
    (hbatch : orKey request.idempotencyKey = none) (h : orKey event.idempotencyKey = none) :
    (request.keyOf sha256 event).length = event.subjectId.length + 72 := by
  rw [keyOf_default hbatch h, String.length_append, String.length_append,
    length_computeEventHash hlen, Nat.add_comm]
  rfl

/-- Without a batch key every key fits. -/
theorem length_keyOf_le (hlen : ∀ s, (sha256 s).length = 64) (hadmitted : request.Admitted)
    (hbatch : orKey request.idempotencyKey = none) (hevent : event ∈ request.events) :
    (request.keyOf sha256 event).length ≤ idempotencyKeyWidth := by
  cases hown : orKey event.idempotencyKey with
  | some key =>
    rw [keyOf_own hbatch hown]
    exact (hadmitted.events event hevent).idempotencyKey key (orKey_eq_some hown)
  | none =>
    rw [length_keyOf_default hlen hbatch hown]
    have hsubject := (hadmitted.events event hevent).subjectId
    exact (Nat.add_le_add_right hsubject 72).trans (by decide)

/-! ## Collisions -/

theorem computeEventHash_inj (hinj : request.contents.InjOn sha256) (ha : a ∈ request.events)
    (hb : b ∈ request.events)
    (h : computeEventHash sha256 a.occurredAtIso a.toEventContent =
      computeEventHash sha256 b.occurredAtIso b.toEventContent) :
    a.canonicalContent = b.canonicalContent := by
  rw [computeEventHash_canonicalContent, computeEventHash_canonicalContent] at h
  exact hinj ⟨a, ha, rfl⟩ ⟨b, hb, rfl⟩ (String.append_right_inj _ |>.mp h)

/-- Two events keyed by their content share a key exactly when they share the content. -/
theorem keyOf_eq_iff (hlen : ∀ s, (sha256 s).length = 64) (hinj : request.contents.InjOn sha256)
    (hadmitted : request.Admitted) (ha : a ∈ request.events) (hb : b ∈ request.events)
    (hkeyed : request.KeyedByContent a) (hkeyed' : request.KeyedByContent b) :
    request.keyOf sha256 a = request.keyOf sha256 b ↔ a.canonicalContent = b.canonicalContent := by
  cases hbatch : orKey request.idempotencyKey with
  | some key =>
    rw [keyOf_batch hbatch, keyOf_batch hbatch, String.append_right_inj]
    refine ⟨computeEventHash_inj hinj ha hb, fun h ↦ ?_⟩
    rw [computeEventHash_canonicalContent, computeEventHash_canonicalContent, h]
  | none =>
    rw [keyOf_default hbatch (hkeyed hbatch), keyOf_default hbatch (hkeyed' hbatch)]
    constructor
    · intro h
      -- The hashes have one length, so a separator inside a subject id moves nothing.
      refine computeEventHash_inj hinj ha hb ?_
      have hchars := congrArg String.toList h
      simp only [String.append_assoc, String.toList_append] at hchars
      refine String.toList_inj.mp (List.append_inj_left hchars ?_)
      rw [String.length_toList, String.length_toList, length_computeEventHash hlen,
        length_computeEventHash hlen]
    · intro h
      rw [computeEventHash_canonicalContent, computeEventHash_canonicalContent, h,
        subjectId_of_canonicalContent (hadmitted.events a ha).numbers
          (hadmitted.events b hb).numbers h]

/-- **Key composition.**  The keys of a batch fit and tell contents apart exactly when the batch
key leaves room for the hash. -/
theorem keysCompose_iff (hlen : ∀ s, (sha256 s).length = 64)
    (hinj : request.contents.InjOn sha256) (hadmitted : request.Admitted) :
    request.KeysCompose sha256 ↔
      ∀ key, orKey request.idempotencyKey = some key → key.length ≤ 184 := by
  constructor
  · intro h key hkey
    obtain ⟨event, hevent⟩ := List.exists_mem_of_length_pos hadmitted.count.1
    have hfits := h.fits event hevent
    rw [length_keyOf_batch hlen hkey] at hfits
    exact Nat.le_of_add_le_add_right hfits
  · intro h
    refine ⟨fun event hevent ↦ ?_, fun a ha b hb ↦ keyOf_eq_iff hlen hinj hadmitted ha hb⟩
    cases hbatch : orKey request.idempotencyKey with
    | some key =>
      rw [length_keyOf_batch hlen hbatch]
      exact Nat.add_le_add_right (h key hbatch) 72
    | none => exact length_keyOf_le hlen hadmitted hbatch hevent

end CaptureRequest

end

/-! ## Batches -/

namespace Sample

/-- An event of a kind that carries nothing else. -/
def ofKind (kind : String) : RequestEvent where
  orgId := "org"
  projectId := "project"
  subjectType := "user"
  subjectId := "subject"
  kind := kind
  occurredAt := 0
  payload := .empty
  threadId := none
  runId := none
  idempotencyKey := none
  occurredAtIso := "2026-01-01T00:00:00+00:00"

/-- The digests of two contents. -/
def digest (text : String) : String :=
  if text = (ofKind "message").canonicalContent then
    "29b4b77c94a812e05d04f53498c03b656cc14ddf064013d2cae153f1391f06a9"
  else if text = (ofKind "note").canonicalContent then
    "f6174f469071d80a70a18ceb22765f64706c55ee6c3692d9559145c508fa7914"
  else String.ofList (List.replicate 64 '0')

/-- Two events under a batch key. -/
def keyed (key : String) : CaptureRequest := ⟨[ofKind "message", ofKind "note"], some key⟩

/-- A batch key of 200 characters. -/
def longKey : String := String.ofList (List.replicate 200 'k')

theorem length_longKey : longKey.length = 200 :=
  String.length_ofList.trans List.length_replicate

theorem orKey_keyed {key : String} (h : key ≠ "") :
    orKey (keyed key).idempotencyKey = some key := if_neg h

theorem length_digest (text : String) : (digest text).length = 64 := by
  rw [digest]
  split
  · decide
  · split
    · decide
    · rw [String.length_ofList, List.length_replicate]

theorem admitted_ofKind {kind : String} (h : 1 ≤ kind.length ∧ kind.length ≤ 128) :
    (ofKind kind).toEventIn.Admitted where
  orgId := (by decide : 1 ≤ "org".length ∧ "org".length ≤ 128)
  projectId := (by decide : 1 ≤ "project".length ∧ "project".length ≤ 128)
  subjectType := (by decide : "user".length ≤ 64)
  subjectId := (by decide : "subject".length ≤ 128)
  kind := h
  threadId := fun _ h ↦ absurd h (by simp [ofKind])
  runId := fun _ h ↦ absurd h (by simp [ofKind])
  idempotencyKey := fun _ h ↦ absurd h (by simp [ofKind])
  payload := (by decide : (Dict.dumps .default .empty).utf8ByteSize ≤ maxJsonBytes)
  numbers := fun _ h ↦ absurd h List.not_mem_nil

theorem admitted_keyed {key : String} (h : key.length ≤ 256) : (keyed key).Admitted where
  count := (by decide : 1 ≤ 2 ∧ 2 ≤ 100)
  idempotencyKey := fun _ htext ↦ Option.some.inj htext ▸ h
  events := by
    rintro event hevent
    rw [keyed, List.mem_cons, List.mem_singleton] at hevent
    rcases hevent with rfl | rfl
    · exact admitted_ofKind (by decide)
    · exact admitted_ofKind (by decide)

theorem injOn_digest (key : String) : (keyed key).contents.InjOn digest := by
  have hne : (ofKind "message").canonicalContent ≠ (ofKind "note").canonicalContent := by
    decide +kernel
  have hmem {text : String} (h : text ∈ (keyed key).contents) :
      text = (ofKind "message").canonicalContent ∨ text = (ofKind "note").canonicalContent := by
    obtain ⟨event, hevent, rfl⟩ := h
    rw [keyed, List.mem_cons, List.mem_singleton] at hevent
    exact hevent.imp (congrArg _) (congrArg _)
  have hdigest : digest (ofKind "message").canonicalContent ≠
      digest (ofKind "note").canonicalContent := by
    rw [digest, if_pos rfl, digest, if_neg hne.symm, if_pos rfl]
    decide
  intro s hs t ht h
  rcases hmem hs with rfl | rfl <;> rcases hmem ht with rfl | rfl
  · rfl
  · exact absurd h hdigest
  · exact absurd h.symm hdigest
  · rfl

end Sample

theorem keysCompose_import : (Sample.keyed "import").KeysCompose Sample.digest :=
  (CaptureRequest.keysCompose_iff Sample.length_digest (Sample.injOn_digest _)
    (Sample.admitted_keyed (by decide))).mpr fun key hkey ↦ by
      rw [← Option.some.inj (hkey : some "import" = some key)]
      decide

/-- A batch key of 200 characters is admitted, and the keys under it have 272. -/
theorem long_batch_key_overflows :
    (Sample.keyed Sample.longKey).Admitted ∧
      ¬ ∃ sha256 : String → String, (∀ s, (sha256 s).length = 64) ∧
        (Sample.keyed Sample.longKey).KeysCompose sha256 := by
  have hne : Sample.longKey ≠ "" := by
    intro h
    have hlength := Sample.length_longKey
    rw [h] at hlength
    exact absurd hlength (by decide)
  refine ⟨Sample.admitted_keyed (Sample.length_longKey.le.trans (by decide)), ?_⟩
  rintro ⟨sha256, hlen, h⟩
  have hfits := h.fits (Sample.ofKind "note") (List.mem_cons_of_mem _ (List.mem_singleton_self _))
  rw [CaptureRequest.length_keyOf_batch hlen (Sample.orKey_keyed hne),
    Sample.length_longKey] at hfits
  exact absurd hfits (by decide)

end Haki
