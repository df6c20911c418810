import Haki.Providers.Local

/-!
# The embedding caches are transparent

However calls of one embedder take turns, and whatever Redis does short of
making up a vector, a call returns the model's vectors of its prefixed texts in
order.  The invariant is one of every table of vectors there is: each text has
the model's vector.  Besides, no text of a call is ever lost between its tables
and its list of missing texts, and the cache of the process stays bounded.
-/

namespace Haki

open Control Data

variable {α : Type} {E : LocalEmbedder α}

/-! ## Tables of vectors -/

/-- Every text has the model's vector. -/
def Vectors.Exact (E : LocalEmbedder α) (t : Vectors α) : Prop := ∀ r ∈ t, r.2 = E.model r.1

/-- The table has a vector of the text. -/
def Vectors.Has (t : Vectors α) (text : String) : Prop := ∃ r ∈ t, r.1 = text

namespace Vectors

variable {t t' : Vectors α} {text : String} {v : List α} {texts missing : List String}

theorem exact_empty : Exact E .empty := fun r hr ↦ absurd hr (Table.notMem_empty r)

theorem Exact.upsert (h : Exact E t) (hv : v = E.model text) : Exact E (t.upsert (text, v)) := by
  intro r hr
  rcases Table.mem_of_mem_upsert hr with hr | rfl
  · exact h r hr
  · exact hv

theorem Exact.put (h : Exact E t) (hv : v = E.model text) : Exact E (t.put text v) :=
  fun r hr ↦ h.upsert hv r (Table.mem_of_mem_trim hr)

theorem length_put_le (t : Vectors α) (text : String) (v : List α) :
    (t.put text v).rows.length ≤ cacheMaxEntries :=
  Table.length_trim_le _ _

theorem Has.upsert (h : t.Has text) (r : String × List α) : Has (Table.upsert t r) text := by
  obtain ⟨r', hr', rfl⟩ := h
  exact Table.exists_mem_upsert hr'

theorem has_upsert_self (t : Vectors α) (r : String × List α) : Has (Table.upsert t r) r.1 :=
  ⟨r, Table.mem_iff_get?.mpr (by rw [Table.get?_upsert, if_pos rfl]), rfl⟩

theorem has_of_get? {r : String × List α} (h : Table.get? t text = some r) : t.Has text :=
  ⟨r, Table.mem_of_get? h, Table.key_of_get? h⟩

theorem Has.get? (h : t.Has text) (ht : Exact E t) :
    Table.get? t text = some (text, E.model text) := by
  obtain ⟨⟨text', v⟩, hr, rfl⟩ := h
  have hv : v = E.model text' := ht _ hr
  exact hv ▸ Table.mem_iff_get?.mp hr

/-- No text is lost: it has a vector or is still missing. -/
def Covers (t : Vectors α) (missing : List String) (text : String) : Prop :=
  t.Has text ∨ text ∈ missing

theorem Covers.upsert (h : t.Covers missing text) (r : String × List α) :
    Covers (Table.upsert t r) missing text :=
  h.imp_left fun h ↦ h.upsert r

theorem Covers.append (h : t.Covers missing text) (more : List String) :
    t.Covers (missing ++ more) text :=
  h.imp_right (List.mem_append_left more)

/-- A text is covered from when it gets a vector. -/
theorem covers_concat_upsert {done : List String} (h : ∀ text ∈ done, t.Covers missing text)
    (text : String) (v : List α) :
    ∀ text' ∈ done ++ [text], Covers (Table.upsert t (text, v)) missing text' := by
  rw [List.forall_mem_append, List.forall_mem_singleton]
  exact ⟨fun text' h' ↦ (h text' h').upsert _, .inl (has_upsert_self t (text, v))⟩

/-- A text is covered from when it is missing. -/
theorem covers_concat_missing {done : List String} (h : ∀ text ∈ done, t.Covers missing text)
    (text : String) : ∀ text' ∈ done ++ [text], t.Covers (missing ++ [text]) text' := by
  rw [List.forall_mem_append, List.forall_mem_singleton]
  exact ⟨fun text' h' ↦ (h text' h').append _, .inr List.mem_concat_self⟩

/-- What a call collects. -/
theorem collect_eq (ht : Exact E t) (h : ∀ text ∈ texts, t.Has text) :
    collect t texts = some (texts.map E.model) := by
  induction texts with
  | nil => rfl
  | cons text texts ih =>
    have hget := (h text List.mem_cons_self).get? ht
    have ih := ih fun text htext ↦ h text (List.mem_cons_of_mem _ htext)
    rw [collect, List.mapM_cons, hget, ← collect, ih]
    rfl

/-! ### Many vectors at once -/

section Rows

variable {rows : List (String × List α)}

theorem Exact.foldl_upsert (ht : Exact E t) (hrows : ∀ r ∈ rows, r.2 = E.model r.1) :
    Exact E (rows.foldl Table.upsert t) := by
  induction rows generalizing t with
  | nil => exact ht
  | cons r rows ih =>
    obtain ⟨hr, hrows⟩ := List.forall_mem_cons.mp hrows
    exact ih (ht.upsert hr) hrows

theorem Exact.foldl_put (ht : Exact E t) (hrows : ∀ r ∈ rows, r.2 = E.model r.1) :
    Exact E (rows.foldl (fun t r ↦ t.put r.1 r.2) t) := by
  induction rows generalizing t with
  | nil => exact ht
  | cons r rows ih =>
    obtain ⟨hr, hrows⟩ := List.forall_mem_cons.mp hrows
    exact ih (ht.put hr) hrows

theorem length_foldl_put_le (ht : t.rows.length ≤ cacheMaxEntries) :
    (rows.foldl (fun t r ↦ Vectors.put t r.1 r.2) t).rows.length ≤ cacheMaxEntries := by
  induction rows generalizing t with
  | nil => exact ht
  | cons r rows ih => exact ih (length_put_le t r.1 r.2)

theorem has_foldl_upsert (h : t.Has text ∨ ∃ r ∈ rows, r.1 = text) :
    Has (rows.foldl Table.upsert t) text := by
  induction rows generalizing t with
  | nil =>
    rcases h with h | ⟨r, hr, -⟩
    · exact h
    · exact absurd hr List.not_mem_nil
  | cons r rows ih =>
    apply ih
    rcases h with h | ⟨r', hr', rfl⟩
    · exact .inl (h.upsert r)
    · rcases List.mem_cons.mp hr' with rfl | hr'
      · exact .inl (has_upsert_self t r')
      · exact .inr ⟨r', hr', rfl⟩

theorem mem_of_mem_foldl_upsert {r : String × List α} (h : r ∈ rows.foldl Table.upsert t) :
    r ∈ t ∨ r ∈ rows := by
  induction rows generalizing t with
  | nil => exact .inl h
  | cons r' rows ih =>
    rcases ih h with h | h
    · rcases Table.mem_of_mem_upsert h with h | rfl
      · exact .inl h
      · exact .inr List.mem_cons_self
    · exact .inr (List.mem_cons_of_mem r' h)

end Rows

end Vectors

/-! ## The process cache -/

section

variable {cache results : Vectors α} {missing texts : List String}

/-- What the process cache answers, and what it leaves missing. -/
structure Looked (E : LocalEmbedder α) (bound : ℕ) (texts missing : List String)
    (looked : Vectors α × Vectors α × List String) : Prop where
  cache : looked.1.Exact E
  bounded : looked.1.rows.length ≤ bound
  results : looked.2.1.Exact E
  covered : ∀ text ∈ texts, looked.2.1.Covers looked.2.2 text
  missing : ∀ text ∈ looked.2.2, text ∈ missing

theorem lookInProcess_spec (done known : List String) (hc : cache.Exact E)
    (hr : results.Exact E) (hdone : ∀ text ∈ done, results.Covers missing text)
    (hmissing : ∀ text ∈ missing, text ∈ known) (htexts : ∀ text ∈ texts, text ∈ known) :
    Looked E cache.rows.length (done ++ texts) known
      (lookInProcess cache results missing texts) := by
  induction texts generalizing cache results missing done with
  | nil => exact ⟨hc, le_rfl, hr, by simpa [lookInProcess] using hdone, hmissing⟩
  | cons text texts ih =>
    have hrest : ∀ text ∈ texts, text ∈ known := fun text h ↦ htexts text (List.mem_cons_of_mem _ h)
    have hsplit : done ++ text :: texts = (done ++ [text]) ++ texts := by simp
    rw [hsplit, lookInProcess]
    split
    next found hfound =>
      have hv : found.2 = E.model text := by
        rw [← Table.key_of_get? hfound]
        exact hc found (Table.mem_of_get? hfound)
      have hmoved : Vectors.Exact E (cache.moveToEnd text) := fun r hr ↦
        hc r (Table.mem_moveToEnd.mp hr)
      have hcovered := Vectors.covers_concat_upsert hdone text found.2
      have := ih _ hmoved (hr.upsert hv) hcovered hmissing hrest
      rwa [Table.length_moveToEnd] at this
    next hnone =>
      split
      next hnew =>
        refine ih _ hc hr (Vectors.covers_concat_missing hdone text) ?_ hrest
        exact List.forall_mem_append.mpr ⟨hmissing,
          List.forall_mem_singleton.mpr (htexts text List.mem_cons_self)⟩
      next hold =>
        have htext : results.Covers missing text := by
          by_cases hin : text ∈ missing
          · exact .inr hin
          · have hsome : results.get? text ≠ none := fun h ↦
              hold ⟨Option.isNone_iff_eq_none.mpr h, hin⟩
            obtain ⟨r, hget⟩ := Option.ne_none_iff_exists'.mp hsome
            exact .inl (Vectors.has_of_get? hget)
        exact ih _ hc hr (List.forall_mem_append.mpr ⟨hdone, List.forall_mem_singleton.mpr htext⟩)
          hmissing hrest

end

/-! ## Redis -/

/-- What the embedder relies on: the texts that are ever embedded have different digests, and a
vector is read back from its payload. -/
structure LocalEmbedder.Reliable (E : LocalEmbedder α) (known : Set String) : Prop where
  sha256 : Set.InjOn E.sha256 known
  loads : ∀ text ∈ known, E.loads (E.dumps (E.model text)) = .vector (E.model text)

/-- The payload is read as a vector of the right dimension. -/
def LocalEmbedder.readable (E : LocalEmbedder α) (payload : String) : Bool :=
  match E.loads payload with
  | .vector v => v.length = E.dim
  | .malformed | .raises => false

/-- What Redis may answer for a text: nothing, a payload that was once stored for it, or one that
is malformed or of another dimension. -/
def LocalEmbedder.Honest (E : LocalEmbedder α) (stored : List (String × String)) (text : String) :
    Option String → Prop
  | none => True
  | some payload => (E.sharedKey text, payload) ∈ stored ∨ ¬ E.readable payload

instance (stored : List (String × String)) (text : String) :
    DecidablePred (E.Honest stored text)
  | none => isTrue trivial
  | some payload =>
    inferInstanceAs (Decidable ((E.sharedKey text, payload) ∈ stored ∨ ¬ E.readable payload))

/-- An answer of `mget`: one entry for each key. -/
def LocalEmbedder.Answers (E : LocalEmbedder α) (stored : List (String × String))
    (missing : List String) (raw : List (Option String)) : Prop :=
  raw.length = missing.length ∧ ∀ p ∈ missing.zip raw, E.Honest stored p.1 p.2

instance (stored : List (String × String)) (missing : List String) :
    DecidablePred (E.Answers stored missing) :=
  fun _ ↦ inferInstanceAs (Decidable (_ ∧ _))

/-- Everything in Redis is the model's. -/
def LocalEmbedder.Stored (E : LocalEmbedder α) (known : Set String)
    (stored : List (String × String)) : Prop :=
  ∀ e ∈ stored, ∃ text ∈ known, e = E.entry text (E.model text)

section Redis

variable {known : Set String} {stored : List (String × String)} {cache results : Vectors α}
  {text payload : String} {v : List α} {missing texts : List String}

/-- Different texts have different keys. -/
theorem LocalEmbedder.Reliable.sharedKey (hE : E.Reliable known) : Set.InjOn E.sharedKey known := by
  intro text htext text' htext' h
  refine hE.sha256 htext htext' (String.toList_inj.mp ?_)
  have := congrArg String.toList h
  simpa [LocalEmbedder.sharedKey] using this

/-- A payload that is read as a vector is the payload of the text. -/
theorem LocalEmbedder.Reliable.hit (hE : E.Reliable known) (hstored : E.Stored known stored)
    (htext : text ∈ known) (h : E.Honest stored text (some payload))
    (hload : E.loads payload = .vector v) (hdim : v.length = E.dim) : v = E.model text := by
  have hread : E.readable payload := by
    rw [LocalEmbedder.readable, hload]
    exact decide_eq_true hdim
  obtain ⟨text', htext', hentry⟩ := hstored _ (h.resolve_right fun h ↦ h hread)
  obtain ⟨hkey, rfl⟩ := Prod.mk.inj hentry
  obtain rfl := hE.sharedKey htext htext' hkey
  rw [hE.loads text htext] at hload
  exact (Loaded.vector.inj hload).symm

/-- What the loop over the answers of Redis leaves. -/
structure Filled (E : LocalEmbedder α) (results : Vectors α) (done known : List String)
    (filled : Vectors α × Vectors α × Option (List String)) : Prop where
  cache : filled.1.Exact E
  bounded : filled.1.rows.length ≤ cacheMaxEntries
  exact : filled.2.1.Exact E
  grows : ∀ text, results.Has text → filled.2.1.Has text
  covered : ∀ missing ∈ filled.2.2, ∀ text ∈ done, filled.2.1.Covers missing text
  missing : ∀ missing ∈ filled.2.2, ∀ text ∈ missing, text ∈ known

theorem LocalEmbedder.fill_spec (hE : E.Reliable known) (hstored : E.Stored known stored)
    (done asked : List String) (rest : List (String × Option String)) (hc : cache.Exact E)
    (hbound : cache.rows.length ≤ cacheMaxEntries) (hr : results.Exact E)
    (hdone : ∀ text ∈ done, results.Covers missing text)
    (hmissing : ∀ text ∈ missing, text ∈ asked)
    (hrest : ∀ p ∈ rest, p.1 ∈ asked ∧ p.1 ∈ known ∧ E.Honest stored p.1 p.2) :
    Filled E results (done ++ rest.map Prod.fst) asked (E.fill cache results missing rest) := by
  induction rest generalizing cache results missing done with
  | nil =>
    refine ⟨hc, hbound, hr, fun _ h ↦ h, ?_, ?_⟩
    · rintro _ ⟨⟩
      simpa [LocalEmbedder.fill] using hdone
    · rintro _ ⟨⟩
      exact hmissing
  | cons p rest ih =>
    obtain ⟨text, payload⟩ := p
    obtain ⟨⟨hasked, hknown, hhonest⟩, htail⟩ := List.forall_mem_cons.mp hrest
    have hsplit : done ++ ((text, payload) :: rest).map Prod.fst =
        (done ++ [text]) ++ rest.map Prod.fst := by simp
    -- the text stays missing
    have hmiss : Filled E results ((done ++ [text]) ++ rest.map Prod.fst) asked
        (E.fill cache results (missing ++ [text]) rest) :=
      ih _ hc hbound hr (Vectors.covers_concat_missing hdone text)
        (List.forall_mem_append.mpr ⟨hmissing, List.forall_mem_singleton.mpr hasked⟩) htail
    rw [hsplit]
    cases payload with
    | none => exact hmiss
    | some payload =>
      rw [LocalEmbedder.fill]
      split
      next v hload =>
        split
        next => exact hmiss
        next hdim =>
          have hv : v = E.model text := hE.hit hstored hknown hhonest hload (not_not.mp hdim)
          have hfilled := ih _ (hc.put hv) (Vectors.length_put_le _ _ _) (hr.upsert hv)
            (Vectors.covers_concat_upsert hdone text v) hmissing htail
          exact { hfilled with grows := fun text' h ↦ hfilled.grows text' (h.upsert _) }
      next => exact hmiss
      next => exact ⟨hc, hbound, hr, fun _ h ↦ h, nofun, nofun⟩

/-- What `_shared_lookup` leaves, whatever Redis does. -/
theorem LocalEmbedder.sharedLookup_spec (hE : E.Reliable known) (hstored : E.Stored known stored)
    {raw : Option (List (Option String))} (hc : cache.Exact E)
    (hbound : cache.rows.length ≤ cacheMaxEntries) (hr : results.Exact E)
    (hcovered : ∀ text ∈ texts, results.Covers missing text)
    (hknown : ∀ text ∈ missing, text ∈ known)
    (hraw : ∀ answers ∈ raw, E.Answers stored missing answers) :
    Looked E cacheMaxEntries texts missing (E.sharedLookup cache results missing raw) := by
  cases raw with
  | none => exact ⟨hc, hbound, hr, hcovered, fun _ h ↦ h⟩
  | some raw =>
    obtain ⟨hlength, hhonest⟩ := hraw raw rfl
    have hfst : (missing.zip raw).map Prod.fst = missing := List.map_fst_zip hlength.ge
    have hrest : ∀ p ∈ missing.zip raw, p.1 ∈ missing ∧ p.1 ∈ known ∧ E.Honest stored p.1 p.2 :=
      fun p hp ↦ ⟨(List.of_mem_zip hp).1, hknown _ (List.of_mem_zip hp).1, hhonest p hp⟩
    have hfilled := LocalEmbedder.fill_spec hE hstored [] missing _ hc hbound hr
      (List.forall_mem_nil _) (List.forall_mem_nil _) hrest
    rw [List.nil_append, hfst] at hfilled
    rw [LocalEmbedder.sharedLookup]
    cases hout : (E.fill cache results [] (missing.zip raw)).2.2 with
    | none =>
      exact ⟨hfilled.cache, hfilled.bounded, hfilled.exact, fun text h ↦
        (hcovered text h).imp_left (hfilled.grows text), fun _ h ↦ h⟩
    | some still =>
      refine ⟨hfilled.cache, hfilled.bounded, hfilled.exact, fun text h ↦ ?_,
        hfilled.missing still hout⟩
      rcases hcovered text h with h | h
      · exact .inl (hfilled.grows text h)
      · exact hfilled.covered still hout text h

end Redis

/-! ## The model -/

section Model

variable {cache results computed : Vectors α} {texts : List String}

theorem LocalEmbedder.embedMissing_eq (E : LocalEmbedder α) (texts : List String) :
    E.embedMissing texts =
      (texts.map fun text ↦ (text, E.model text)).foldl Table.upsert .empty := by
  rw [LocalEmbedder.embedMissing, List.foldl_map]

theorem LocalEmbedder.embedMissing_spec (E : LocalEmbedder α) (texts : List String) :
    (E.embedMissing texts).Exact E ∧ (∀ text ∈ texts, (E.embedMissing texts).Has text) ∧
      ∀ r ∈ E.embedMissing texts, r.1 ∈ texts := by
  rw [E.embedMissing_eq]
  refine ⟨?_, ?_, ?_⟩
  · exact Vectors.exact_empty.foldl_upsert (List.forall_mem_map.mpr fun _ _ ↦ rfl)
  · intro text htext
    exact Vectors.has_foldl_upsert (.inr ⟨_, List.mem_map_of_mem htext, rfl⟩)
  · intro r hr
    have hrow := (Vectors.mem_of_mem_foldl_upsert hr).resolve_left (Table.notMem_empty r)
    obtain ⟨text, htext, rfl⟩ := List.mem_map.mp hrow
    exact htext

/-- The last loop fills two tables at once. -/
theorem keep_eq (cache results computed : Vectors α) :
    keep cache results computed =
      (computed.rows.foldl (fun t r ↦ t.put r.1 r.2) cache,
        computed.rows.foldl Table.upsert results) := by
  rw [keep]
  induction computed.rows generalizing cache results with
  | nil => rfl
  | cons r rows ih => exact ih (cache.put r.1 r.2) (Table.upsert results r)

/-- What the last loop leaves. -/
theorem keep_spec (hc : cache.Exact E) (hbound : cache.rows.length ≤ cacheMaxEntries)
    (hr : results.Exact E) (hcomputed : computed.Exact E) :
    (keep cache results computed).1.Exact E ∧
      (keep cache results computed).1.rows.length ≤ cacheMaxEntries ∧
      (keep cache results computed).2.Exact E ∧
      ∀ text, results.Has text ∨ computed.Has text → (keep cache results computed).2.Has text := by
  rw [keep_eq]
  exact ⟨hc.foldl_put hcomputed, Vectors.length_foldl_put_le hbound, hr.foldl_upsert hcomputed,
    fun _ h ↦ Vectors.has_foldl_upsert h⟩

end Model

/-! ## Runs -/

/-- What has to hold of a call between two awaits. -/
def EmbedPhase.Meets (E : LocalEmbedder α) (known : Set String) : EmbedPhase α → Prop
  | .ahead => True
  | .lookup call texts results missing | .compute call texts results missing =>
    texts = E.prefixed call ∧ results.Exact E ∧ (∀ text ∈ texts, results.Covers missing text) ∧
      ∀ text ∈ missing, text ∈ known
  | .store call texts results computed =>
    texts = E.prefixed call ∧ results.Exact E ∧ computed.Exact E ∧
      (∀ text ∈ texts, results.Has text ∨ computed.Has text) ∧ ∀ r ∈ computed, r.1 ∈ known
  | .done call vectors => vectors = some ((E.prefixed call).map E.model)

/-- What has to hold of the caches. -/
structure EmbedCaches.Meets (E : LocalEmbedder α) (known : Set String) (s : EmbedCaches α) :
    Prop where
  exact : s.cache.Exact E
  bounded : s.cache.rows.length ≤ cacheMaxEntries
  stored : E.Stored known s.stored

/-- What a call has asked Redis for. -/
def EmbedPhase.asked : EmbedPhase α → Option (List String)
  | .lookup _ _ _ missing => some missing
  | .ahead | .compute _ _ _ _ | .store _ _ _ _ | .done _ _ => none

/-- How many awaits of a call are left, at most. -/
def EmbedPhase.awaits : EmbedPhase α → ℕ
  | .ahead | .done _ _ => 0
  | .lookup _ _ _ _ => 3
  | .compute _ _ _ _ => 2
  | .store _ _ _ _ => 1

variable {known : Set String} {s s' : EmbedCaches α} {phase phase' : EmbedPhase α}
  {call : EmbedCall} {answer : EmbedAnswer}

/-- What becomes of a call that has looked into a cache. -/
theorem Looked.meets {results : Vectors α} {missing texts missing' : List String}
    {cache : Vectors α} {bound : ℕ} (h : Looked E bound texts missing (cache, results, missing'))
    (htexts : texts = E.prefixed call) (hknown : ∀ text ∈ missing, text ∈ known) :
    (missing' = [] → collect results texts = some ((E.prefixed call).map E.model)) ∧
      (EmbedPhase.lookup call texts results missing').Meets E known ∧
      (EmbedPhase.compute call texts results missing').Meets E known := by
  have hmeets : (EmbedPhase.lookup call texts results missing').Meets E known :=
    ⟨htexts, h.results, h.covered, fun text htext ↦ hknown text (h.missing text htext)⟩
  refine ⟨?_, hmeets, hmeets⟩
  rintro rfl
  rw [← htexts]
  exact Vectors.collect_eq h.results fun text htext ↦
    (h.covered text htext).resolve_right List.not_mem_nil

/-- A call keeps the caches as they have to be, up to its first await. -/
theorem LocalEmbedder.start_meets (call : EmbedCall) (hs : s.Meets E known)
    (hcall : ∀ text ∈ E.prefixed call, text ∈ known) :
    (E.start call s).1.Meets E known ∧ (E.start call s).2.Meets E known := by
  rw [LocalEmbedder.start]
  split
  next hnil =>
    refine ⟨hs, ?_⟩
    simp [EmbedPhase.Meets, LocalEmbedder.prefixed, hnil]
  next =>
    have hlooked := lookInProcess_spec [] (E.prefixed call) hs.exact Vectors.exact_empty
      (List.forall_mem_nil _) (List.forall_mem_nil _) fun _ h ↦ h
    obtain ⟨hdone, hlookup, -⟩ := hlooked.meets rfl hcall
    refine ⟨⟨hlooked.cache, hlooked.bounded.trans hs.bounded, hs.stored⟩, ?_⟩
    dsimp only
    split
    next hnil => exact hdone hnil
    next => exact hlookup

/-- And from an await to the next. -/
theorem LocalEmbedder.resume_meets (hE : E.Reliable known) (hs : s.Meets E known)
    (hphase : phase.Meets E known)
    (hanswer : ∀ missing ∈ phase.asked, ∀ raw ∈ answer.raw, E.Answers s.stored missing raw)
    (h : E.resume answer s phase = some (s', phase')) :
    s'.Meets E known ∧ phase'.Meets E known := by
  cases phase with
  | ahead => cases h
  | done => cases h
  | lookup call texts results missing =>
    obtain ⟨htexts, hr, hcovered, hknown⟩ := hphase
    have hlooked := LocalEmbedder.sharedLookup_spec hE hs.stored hs.exact hs.bounded hr hcovered
      hknown (hanswer missing rfl)
    obtain ⟨hdone, -, hcompute⟩ := hlooked.meets htexts hknown
    cases h
    refine ⟨⟨hlooked.cache, hlooked.bounded, hs.stored⟩, ?_⟩
    split
    next hnil => exact hdone hnil
    next => exact hcompute
  | compute call texts results stillMissing =>
    obtain ⟨htexts, hr, hcovered, hknown⟩ := hphase
    obtain ⟨hexact, hhas, hmem⟩ := E.embedMissing_spec stillMissing
    cases h
    exact ⟨hs, htexts, hr, hexact, fun text h ↦ (hcovered text h).imp_right (hhas text),
      fun r hr ↦ hknown r.1 (hmem r hr)⟩
  | store call texts results computed =>
    obtain ⟨htexts, hr, hcomputed, hcovered, hknown⟩ := hphase
    obtain ⟨hcache, hbound, hresults, hhas⟩ := keep_spec hs.exact hs.bounded hr hcomputed
    cases h
    refine ⟨⟨hcache, hbound, fun e he ↦ ?_⟩, ?_⟩
    · rcases List.mem_append.mp he with he | he
      · exact hs.stored e he
      · obtain ⟨r, hr, rfl⟩ := List.mem_map.mp (List.mem_of_mem_take he)
        exact ⟨r.1, hknown r hr, by rw [hcomputed r hr]⟩
    · rw [EmbedPhase.Meets, ← htexts]
      exact Vectors.collect_eq hresults fun text h ↦ hhas text (hcovered text h)

/-- An await that ends brings a call closer to its return. -/
theorem LocalEmbedder.exists_resume (E : LocalEmbedder α) (answer : EmbedAnswer)
    (s : EmbedCaches α) (h : 0 < phase.awaits) :
    ∃ s' phase', E.resume answer s phase = some (s', phase') ∧ phase'.awaits < phase.awaits := by
  cases phase with
  | ahead => exact absurd h (lt_irrefl 0)
  | done => exact absurd h (lt_irrefl 0)
  | lookup call texts results missing =>
    refine ⟨_, _, rfl, ?_⟩
    split
    · exact Nat.succ_pos 2
    · exact Nat.lt_succ_self 2
  | compute => exact ⟨_, _, rfl, Nat.lt_succ_self 1⟩
  | store => exact ⟨_, _, rfl, Nat.succ_pos 0⟩

variable {ι : Type}

/-- A call asks for known texts only, other workers store those only, and Redis makes up no
vector. -/
def LocalEmbedder.Allows (E : LocalEmbedder α) (known : Set String)
    (c : Config ι (EmbedCaches α) (EmbedPhase α)) : Move ι EmbedTurn String → Prop
  | .turn _ (.call call) => ∀ text ∈ E.prefixed call, text ∈ known
  | .turn i (.resume answer) =>
    ∀ missing ∈ (c.own i).asked, ∀ raw ∈ answer.raw, E.Answers c.shared.stored missing raw
  | .env text => text ∈ known

instance [DecidablePred (· ∈ known)] :
    ∀ (c : Config ι (EmbedCaches α) (EmbedPhase α)) x, Decidable (E.Allows known c x)
  | _, .turn _ (.call call) => inferInstanceAs (Decidable (∀ text ∈ E.prefixed call, text ∈ known))
  | c, .turn i (.resume answer) =>
    inferInstanceAs (Decidable (∀ missing ∈ (c.own i).asked, ∀ raw ∈ answer.raw, _))
  | _, .env text => inferInstanceAs (Decidable (text ∈ known))

/-- No call has begun, the cache of the process is empty, and so is Redis. -/
def LocalEmbedder.initial (ι : Type) (α : Type) : Config ι (EmbedCaches α) (EmbedPhase α) where
  shared := ⟨.empty, []⟩
  own _ := .ahead

/-- What holds in every state of a run. -/
structure EmbedTransparent (E : LocalEmbedder α) (c : Config ι (EmbedCaches α) (EmbedPhase α)) :
    Prop where
  /-- A call that has returned has returned the model's vectors of its prefixed texts. -/
  returned : ∀ i call vectors, c.own i = .done call vectors →
    vectors = some (call.texts.map fun text ↦ E.model (E.prefixOf call ++ text))
  /-- A call that has not returned goes on, whatever its await ends with. -/
  returns : ∀ i, 0 < (c.own i).awaits → ∀ answer, ∃ s phase,
    E.resume answer c.shared (c.own i) = some (s, phase) ∧ phase.awaits < (c.own i).awaits
  bounded : c.shared.cache.rows.length ≤ cacheMaxEntries

theorem LocalEmbedder.map_prefixed (E : LocalEmbedder α) (call : EmbedCall) :
    (E.prefixed call).map E.model = call.texts.map fun text ↦ E.model (E.prefixOf call ++ text) := by
  rw [LocalEmbedder.prefixed]
  split
  next hempty => simp only [hempty, String.empty_append]
  next => rw [List.map_map]; rfl

variable [DecidableEq ι] {c : Config ι (EmbedCaches α) (EmbedPhase α)}
  {moves : List (Move ι EmbedTurn String)}

omit [DecidableEq ι] in
/-- Neither a turn nor another worker breaks what holds of the caches and the calls. -/
theorem LocalEmbedder.inductive_meets (hE : E.Reliable known) :
    Handlers.Inductive (E.handlers ι) (E.Allows known) (EmbedCaches.Meets E known)
      fun _ _ phase ↦ phase.Meets E known where
  turn c i m s t hc hC hturn := by
    obtain ⟨hs, hown⟩ := hc
    cases m with
    | call call =>
      cases hphase : c.own i with
      | ahead =>
        simp only [LocalEmbedder.handlers, hphase, Option.some.injEq] at hturn
        have := LocalEmbedder.start_meets call hs hC
        rwa [hturn] at this
      | _ =>
        simp only [LocalEmbedder.handlers, hphase, reduceCtorEq] at hturn
    | resume answer => exact LocalEmbedder.resume_meets hE hs (hown i) hC hturn
  frame c i m s t j hc _ _ _ := hc.own j
  env c text s hc hC henv := by
    cases henv
    refine ⟨⟨hc.shared.exact, hc.shared.bounded, fun e he ↦ ?_⟩, hc.own⟩
    rcases List.mem_append.mp he with he | he
    · exact hc.shared.stored e he
    · exact ⟨text, hC, List.mem_singleton.mp he⟩

/-- **The caches are transparent** in every run. -/
theorem embed_transparent (hE : E.Reliable known)
    (hrun : (E.handlers ι).Runs (E.Allows known) (LocalEmbedder.initial ι α) moves c) :
    EmbedTransparent E c := by
  have hinitial : Handlers.Meets (EmbedCaches.Meets E known) (fun _ _ phase ↦ phase.Meets E known)
      (LocalEmbedder.initial ι α) :=
    ⟨⟨Vectors.exact_empty, Nat.zero_le _, List.forall_mem_nil _⟩, fun _ ↦ trivial⟩
  obtain ⟨hshared, hown⟩ := (LocalEmbedder.inductive_meets hE).runs hinitial hrun
  refine ⟨fun i call vectors hdone ↦ ?_, fun i hi answer ↦ E.exists_resume answer c.shared hi,
    hshared.bounded⟩
  have hmeets := hown i
  rw [hdone] at hmeets
  exact Eq.trans hmeets (congrArg some (E.map_prefixed call))

/-! ## A sample -/

namespace Sample

/-- An asymmetric model, with the digests and the payloads of two texts. -/
def embedder : LocalEmbedder String where
  name := "intfloat/multilingual-e5-large"
  dim := 2
  queryPrefix := "query: "
  docPrefix := "passage: "
  model text := if text = "query: hi" then ["0.1", "0.2"] else ["0.3", "0.4"]
  sha256 text :=
    if text = "query: hi" then "b916d6c6ad9a81c985d0c4425df0cc48f99ec0fe4ba762343ff98753a709df29"
    else "bbd612099fc77fac796df026951d6070a4c1d284a99df24ff80f77539f6c0bb7"
  dumps v := "[" ++ ", ".intercalate v ++ "]"
  loads payload :=
    if payload = "[0.1, 0.2]" then .vector ["0.1", "0.2"]
    else if payload = "[0.3, 0.4]" then .vector ["0.3", "0.4"]
    else .malformed

/-- The callers of the sample. -/
inductive Caller
  | asks
  | stores
  | retries
  deriving DecidableEq

/-- A malformed entry, a hit, a command that is not executed and a failure of `mget`. -/
def embedMoves : List (Move Caller EmbedTurn String) :=
  [.turn .asks (.call ⟨true, ["hi", "hi"]⟩), .turn .stores (.call ⟨false, ["hi"]⟩),
    .env "passage: hi", .turn .stores (.resume ⟨some [some "[0.3, 0.4]"], 0⟩),
    .turn .asks (.resume ⟨some [some "[0.1,"], 0⟩), .turn .retries (.call ⟨true, ["hi"]⟩),
    .turn .asks (.resume ⟨none, 0⟩), .turn .asks (.resume ⟨none, 0⟩),
    .turn .retries (.resume ⟨none, 0⟩), .turn .retries (.resume ⟨none, 0⟩),
    .turn .retries (.resume ⟨none, 1⟩)]

end Sample

theorem reliable_embedder : Sample.embedder.Reliable {"query: hi", "passage: hi"} where
  sha256 := by
    rintro _ (rfl | rfl) _ (rfl | rfl) h
    · rfl
    · exact absurd h (by decide)
    · exact absurd h (by decide)
    · rfl
  loads := by
    rintro _ (rfl | rfl)
    · rfl
    · rfl

/-- Three calls side by side. -/
theorem embed_transparent_sample : ∃ c,
    (Sample.embedder.handlers Sample.Caller).run (LocalEmbedder.initial Sample.Caller String)
      Sample.embedMoves = some c ∧ EmbedTransparent Sample.embedder c := by
  have hrun : ((Sample.embedder.handlers Sample.Caller).run
    (LocalEmbedder.initial Sample.Caller String) Sample.embedMoves).isSome := by decide
  obtain ⟨c, hc⟩ := Option.isSome_iff_exists.mp hrun
  exact ⟨c, hc, embed_transparent reliable_embedder (Handlers.runs_of_allMeet hc (by decide))⟩

end Haki
