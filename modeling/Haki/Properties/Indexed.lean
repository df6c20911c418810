import Haki.Consolidator.ChunkIndex
import Haki.Frame
import Haki.Sample
import Mathlib.Algebra.Order.BigOperators.Group.List
import Mathlib.Algebra.Order.Group.Nat
import Mathlib.Data.Nat.Pairing

/-!
# Completeness of the chunk index

The index text of a chunk names all facts extracted from it as long as every
event whose facts are merged touched all facts of the chunks it rewrites.
A chunk is rewritten from the facts the event touched, and a later event may
reinforce one of several.
-/

namespace Haki

open Data Control

/-! ## What a full index is -/

/-- The facts extracted from a chunk. -/
def Db.factsOf (db : Db) (id : ChunkId) : List Fact :=
  db.facts.rows.filter fun f ↦ f.sourceChunkId = some id

/-- What an event touched of a chunk. -/
def Db.touchedOf (db : Db) (event : Event) (id : ChunkId) : List Fact :=
  (db.factsOf id).filter fun f ↦ event.id ∈ f.sourceEventIds

/-- The index text of a chunk that names all facts extracted from it, in order. -/
def fullIndexText (order : IndexOrder) (db : Db) (c : EpisodeChunk) : String :=
  if db.factsOf c.id = [] then c.text
  else chunkIndexText c.text (ascending order.key (db.factsOf c.id))

/-- Every chunk is indexed under its text and all facts extracted from it. -/
def FullyIndexed (order : IndexOrder) (db : Db) (chunks : Table EpisodeChunk) : Prop :=
  ∀ c ∈ chunks, c.indexText = some (fullIndexText order db c)

/-- An event touched all facts of a chunk, or none. -/
def Covers (db : Db) (event : Event) (c : EpisodeChunk) : Prop :=
  ∀ f ∈ db.factsOf c.id, event.id ∈ f.sourceEventIds →
    ∀ g ∈ db.factsOf c.id, event.id ∈ g.sourceEventIds

instance (order : IndexOrder) (db : Db) (chunks : Table EpisodeChunk) :
    Decidable (FullyIndexed order db chunks) :=
  inferInstanceAs (Decidable (∀ c ∈ chunks, _))

instance (db : Db) (event : Event) (c : EpisodeChunk) : Decidable (Covers db event c) :=
  List.decidableBAll _ _

section

variable {env : Env} {order : IndexOrder} {db db' : Db} {event : Event} {f g : Fact}
  {id : ChunkId} {c : EpisodeChunk}

theorem mem_factsOf : f ∈ db.factsOf id ↔ f ∈ db.facts ∧ f.sourceChunkId = some id := by
  rw [Db.factsOf, List.mem_filter, decide_eq_true_eq]
  rfl

/-- The order of the index is total: a key has one fact. -/
theorem IndexOrder.id_of_key (h : order.key f = order.key g) : f.id = g.id := by
  simp only [IndexOrder.key, EmbeddingLike.apply_eq_iff_eq, Prod.mk.injEq] at h
  exact order.uuid_injective h.2.2.2

theorem key_injOn {l : List Fact} (hl : ∀ f ∈ l, f ∈ db.facts) :
    ∀ f ∈ l, ∀ g ∈ l, order.key f = order.key g → f = g :=
  fun f hf g hg h ↦ Db.eq_of_id_eq (hl f hf) (hl g hg) (IndexOrder.id_of_key h)

/-- What an event touched of a chunk, in the order of the index. -/
theorem touchedFacts_filter (order : IndexOrder) (db : Db) (event : Event) (id : ChunkId) :
    ((touchedFacts order db event).filter fun f ↦ f.sourceChunkId = some id) =
      ascending order.key (db.touchedOf event id) := by
  rw [Db.touchedOf, touchedFacts, filter_ascending (key_injOn fun f hf ↦ List.mem_of_mem_filter hf),
    List.filter_filter, Db.factsOf, List.filter_filter]
  congr 1
  refine List.filter_congr fun f _ ↦ ?_
  by_cases hid : f.sourceChunkId = some id
  · simp [hid]
  · simp [hid]

/-! ## Merging the facts of one event -/

theorem mem_mergeFacts {chunks : Table EpisodeChunk} {c' : EpisodeChunk} :
    c' ∈ mergeFactsIntoChunkIndex env order db event chunks ↔
      ∃ c ∈ chunks, c.merge env (ascending order.key (db.touchedOf event c.id)) = c' := by
  rw [mergeFactsIntoChunkIndex, Table.mem_modify fun c ↦ c.merge_id env _]
  simp only [touchedFacts_filter]

theorem EpisodeChunk.merge_indexText (env : Env) (c : EpisodeChunk) {facts : List Fact}
    (h : facts ≠ []) : (c.merge env facts).indexText = some (chunkIndexText c.text facts) := by
  rw [merge, if_neg h, reindex_indexText]

/-- Joining more texts gives a longer text. -/
theorem length_intercalate_lt {sep : String} (hsep : sep ≠ "") {l l' : List String}
    (hl : l ≠ []) (hsum : (l.map String.length).sum ≤ (l'.map String.length).sum)
    (hlength : l.length < l'.length) :
    (sep.intercalate l).length < (sep.intercalate l').length := by
  have hjoin (l : List String) (hl : l ≠ []) : (sep.intercalate l).length + sep.length =
      (l.map String.length).sum + l.length * sep.length := by
    induction l with
    | nil => exact absurd rfl hl
    | cons a as ih =>
      cases as with
      | nil => simp
      | cons b bs =>
        have hrest := ih (List.cons_ne_nil b bs)
        rw [String.intercalate_cons_cons, String.length_append, String.length_append,
          List.map_cons, List.sum_cons, List.length_cons, Nat.succ_mul]
        omega
  have hl' : l' ≠ [] := by
    rintro rfl
    exact absurd hlength (Nat.not_lt_zero _)
  have hpos : 0 < sep.length := Nat.pos_of_ne_zero fun h ↦ hsep (String.length_eq_zero_iff.mp h)
  have hmul := Nat.mul_lt_mul_of_pos_right hlength hpos
  have h := hjoin l hl
  have h' := hjoin l' hl'
  omega

/-- A chunk an event touched is fully indexed when the event touched all of it, and only then. -/
theorem merge_full_iff (h : db.touchedOf event c.id ≠ []) :
    (c.merge env (ascending order.key (db.touchedOf event c.id))).indexText =
      some (fullIndexText order db c) ↔ Covers db event c := by
  have hfacts : db.factsOf c.id ≠ [] := fun hnil ↦ h (by rw [Db.touchedOf, hnil]; rfl)
  rw [EpisodeChunk.merge_indexText env c (ascending_eq_nil.not.mpr h), fullIndexText,
    if_neg hfacts, Option.some.injEq]
  obtain ⟨f, hf⟩ := List.exists_mem_of_ne_nil _ h
  obtain ⟨hf, htouched⟩ := List.mem_filter.mp hf
  constructor
  · intro heq _ _ _ g hg
    by_contra hne
    have hsub : (db.touchedOf event c.id).Sublist (db.factsOf c.id) := List.filter_sublist
    have hlength : (db.touchedOf event c.id).length < (db.factsOf c.id).length := by
      refine List.length_filter_lt_length_iff_exists.mpr ⟨g, hg, ?_⟩
      simpa using hne
    have hsum : (((ascending order.key (db.touchedOf event c.id)).map fun f ↦
        searchText f.predicate f.value).map String.length).sum ≤
        (((ascending order.key (db.factsOf c.id)).map fun f ↦
          searchText f.predicate f.value).map String.length).sum := by
      rw [(((ascending_perm order.key _).map _).map _).sum_nat,
        (((ascending_perm order.key (db.factsOf c.id)).map _).map _).sum_nat]
      exact ((hsub.map _).map _).sum_le_sum fun _ _ ↦ Nat.zero_le _
    have hshort : ((ascending order.key (db.touchedOf event c.id)).map fun f ↦
        searchText f.predicate f.value).length <
        ((ascending order.key (db.factsOf c.id)).map fun f ↦
          searchText f.predicate f.value).length := by
      rwa [List.length_map, List.length_map, (ascending_perm order.key _).length_eq,
        (ascending_perm order.key _).length_eq]
    have hsep : "; " ≠ "" := by decide
    have htexts := length_intercalate_lt hsep
      (List.map_eq_nil_iff.not.mpr (ascending_eq_nil.not.mpr h)) hsum hshort
    have hlen := congrArg String.length heq
    simp only [chunkIndexText, String.length_append] at hlen
    omega
  · intro hcovers
    have hall : db.touchedOf event c.id = db.factsOf c.id :=
      List.filter_eq_self.mpr fun g hg ↦
        decide_eq_true (hcovers f hf (of_decide_eq_true htouched) g hg)
    rw [hall]

/-- A merge leaves every chunk fully indexed exactly when the event touched all facts of a chunk or
none, if the chunks it does not touch are fully indexed. -/
theorem mergeFacts_full_iff {chunks : Table EpisodeChunk}
    (h : ∀ c ∈ chunks, db.touchedOf event c.id = [] → c.indexText = some (fullIndexText order db c)) :
    FullyIndexed order db (mergeFactsIntoChunkIndex env order db event chunks) ↔
      ∀ c ∈ chunks, Covers db event c := by
  have hchunk (c : EpisodeChunk) (hc : c ∈ chunks) :
      (c.merge env (ascending order.key (db.touchedOf event c.id))).indexText =
        some (fullIndexText order db c) ↔ Covers db event c := by
    by_cases hnil : db.touchedOf event c.id = []
    · rw [hnil]
      refine iff_of_true (h c hc hnil) fun f hf htouched ↦ ?_
      have : f ∈ db.touchedOf event c.id := List.mem_filter.mpr ⟨hf, decide_eq_true htouched⟩
      exact absurd (hnil ▸ this) List.not_mem_nil
    · exact merge_full_iff hnil
  have hfull (c : EpisodeChunk) (facts : List Fact) :
      fullIndexText order db (c.merge env facts) = fullIndexText order db c := by
    rw [fullIndexText, fullIndexText, c.merge_id, c.merge_text]
  constructor
  · intro hall c hc
    have := hall _ (mem_mergeFacts.mpr ⟨c, hc, rfl⟩)
    rw [hfull] at this
    exact (hchunk c hc).mp this
  · intro hcovers c' hc'
    obtain ⟨c, hc, rfl⟩ := mem_mergeFacts.mp hc'
    rw [hfull]
    exact (hchunk c hc).mpr (hcovers c hc)

/-! ## What the candidates of an event do -/

/-- The facts stay with what they were born with and with their sources, and a new one has the event
as a source and comes from a chunk of it, if from any. -/
structure Db.Grows (env : Env) (event : Event) (db db' : Db) : Prop where
  kept : ∀ f ∈ db.facts, ∃ f' ∈ db'.facts, f'.birth = f.birth ∧ f.sourceEventIds ⊆ f'.sourceEventIds
  born : ∀ f' ∈ db'.facts, (∃ f ∈ db.facts, f'.birth = f.birth) ∨
    event.id ∈ f'.sourceEventIds ∧ ∃ span, f'.sourceChunkId = resolveSourceChunk env event span

theorem Fact.sourceChunkId_of_birth (h : f.birth = g.birth) : f.sourceChunkId = g.sourceChunkId :=
  (congrArg Fact.sourceChunkId h : f.birth.sourceChunkId = g.birth.sourceChunkId)

namespace Db.Grows

theorem refl (env : Env) (event : Event) (db : Db) : db.Grows env event db :=
  ⟨fun f hf ↦ ⟨f, hf, rfl, List.Subset.refl _⟩, fun f hf ↦ .inl ⟨f, hf, rfl⟩⟩

theorem trans {db'' : Db} (h : db.Grows env event db') (h' : db'.Grows env event db'') :
    db.Grows env event db'' := by
  constructor
  case kept =>
    intro f hf
    obtain ⟨f', hf', hbirth, hsub⟩ := h.kept f hf
    obtain ⟨f'', hf'', hbirth', hsub'⟩ := h'.kept f' hf'
    exact ⟨f'', hf'', hbirth'.trans hbirth, List.Subset.trans hsub hsub'⟩
  case born =>
    intro f'' hf''
    rcases h'.born f'' hf'' with ⟨f', hf', hbirth⟩ | hnew
    · rcases h.born f' hf' with ⟨f, hf, hbirth'⟩ | ⟨hsource, span, hchunk⟩
      · exact .inl ⟨f, hf, hbirth.trans hbirth'⟩
      · -- the row that continues a new one is the one it was born with
        obtain ⟨g, hg, hgbirth, hsub⟩ := h'.kept f' hf'
        obtain rfl : g = f'' := Db.eq_of_id_eq hg hf'' (Fact.id_of_birth (hgbirth.trans hbirth.symm))
        exact .inr ⟨hsub hsource, span, (Fact.sourceChunkId_of_birth hgbirth).trans hchunk⟩
    · exact .inr hnew

/-- Facts that are rewritten in other columns, or get a source. -/
theorem of_map {g : Fact → Fact} (hfacts : ∀ f', f' ∈ db'.facts ↔ ∃ f ∈ db.facts, g f = f')
    (hg : ∀ f, (g f).birth = f.birth ∧ f.sourceEventIds ⊆ (g f).sourceEventIds) :
    db.Grows env event db' := by
  constructor
  case kept => exact fun f hf ↦ ⟨g f, (hfacts _).mpr ⟨f, hf, rfl⟩, hg f⟩
  case born =>
    intro f' hf'
    obtain ⟨f, hf, rfl⟩ := (hfacts f').mp hf'
    exact .inl ⟨f, hf, (hg f).1⟩

end Db.Grows

theorem Fact.sourceEventIds_of_content (h : f.content = g.content) :
    f.sourceEventIds = g.sourceEventIds :=
  (congrArg Fact.sourceEventIds h : f.content.sourceEventIds = g.content.sourceEventIds)

/-- Applying a candidate reinforces a fact, or writes one with the event as its source. -/
theorem applyCandidate_grows {cand : Candidate} {embedding : Embedding} {result result' : JobResult}
    (hu : db.UniqueActive)
    (h : applyCandidate env db cand embedding event result = .ok (db', result')) :
    db.Grows env event db' := by
  cases hm : (matchCandidate env db cand embedding event).1 with
  | duplicate f =>
    obtain ⟨aliases, heq⟩ := applyCandidate_duplicate hm
    rw [heq] at h
    split at h
    · cases h
      exact ⟨(Db.Grows.refl env event db).kept, (Db.Grows.refl env event db).born⟩
    · cases h
      refine .of_map (g := fun g ↦ if g.id = f.id then g.reinforcedBy event else g)
        (fun f' ↦ mem_reinforced) fun g ↦ ?_
      split
      · exact ⟨rfl, List.subset_append_left _ _⟩
      · exact ⟨rfl, List.Subset.refl _⟩
  | against c' existing =>
    obtain ⟨aliases, row, e, hrow, -, -, rfl, -⟩ := applyCandidate_written hu hm h
    have hfresh := candidateRow_fresh hrow
    have hcontent : (e.onRow env row).content = row.content := e.onRow_content row
    have hsources : row.sourceEventIds = [event.id] ∧
        row.sourceChunkId = resolveSourceChunk env event c'.evidenceSpan := by
      obtain ⟨temporalRange, observedAt, rfl⟩ := candidateRow_eq_ok hrow
      exact ⟨rfl, rfl⟩
    constructor
    case kept =>
      intro f hf
      have hcontent : (e.onFact env event f).content = f.content := e.onFact_content f
      refine ⟨_, (Effect.mem_apply hfresh).mpr (.inl ⟨f, hf, rfl⟩), ?_, ?_⟩
      · exact Fact.birth_of_content hcontent
      · rw [Fact.sourceEventIds_of_content hcontent]
        exact List.Subset.refl _
    case born =>
      intro f' hf'
      rcases (Effect.mem_apply hfresh).mp hf' with ⟨f, hf, rfl⟩ | rfl
      · exact .inl ⟨f, hf, Fact.birth_of_content (e.onFact_content f)⟩
      · refine .inr ⟨?_, c'.evidenceSpan, ?_⟩
        · rw [Fact.sourceEventIds_of_content hcontent, hsources.1]
          exact List.mem_singleton_self _
        · rw [Fact.sourceChunkId_of_birth (Fact.birth_of_content hcontent), hsources.2]

/-- The candidates of an event, one after the other. -/
theorem applied_grows {result : JobResult} {applied : Db × JobResult} {candidates : List Candidate}
    (hu : db.UniqueActive)
    (h : candidates.foldlM (applyAdmitted env event) (db, result) = .ok applied) :
    applied.1.UniqueActive ∧ db.Grows env event applied.1 := by
  refine foldlM_preserves (I := fun t : Db × JobResult ↦
    t.1.UniqueActive ∧ db.Grows env event t.1) (fun t cand t' hI hstep ↦ ?_)
    ⟨hu, .refl env event db⟩ h
  rcases applyAdmitted_cases hstep with ⟨reason, -, rfl⟩ | ⟨-, hstep⟩
  · exact hI
  · exact ⟨applyCandidate_unique hI.1 hstep, hI.2.trans (applyCandidate_grows hI.1 hstep)⟩

/-! ## Chunks an event leaves alone -/

theorem map_birth_perm (h : db.Grows env event db') (hnone : db'.touchedOf event id = []) :
    ((db.factsOf id).map Fact.birth).Perm ((db'.factsOf id).map Fact.birth) := by
  have hnodup (db : Db) : ((db.factsOf id).map Fact.birth).Nodup := by
    refine .of_map Fact.id ?_
    rw [List.map_map]
    exact (List.filter_sublist.map _).nodup db.facts.nodup
  refine (List.perm_ext_iff_of_nodup (hnodup db) (hnodup db')).mpr fun b ↦ ?_
  constructor
  · intro hb
    obtain ⟨f, hf, rfl⟩ := List.mem_map.mp hb
    obtain ⟨hmem, hchunk⟩ := mem_factsOf.mp hf
    obtain ⟨f', hf', hbirth, -⟩ := h.kept f hmem
    refine List.mem_map.mpr ⟨f', mem_factsOf.mpr ⟨hf', ?_⟩, hbirth⟩
    rw [Fact.sourceChunkId_of_birth hbirth, hchunk]
  · intro hb
    obtain ⟨f', hf', rfl⟩ := List.mem_map.mp hb
    obtain ⟨hmem, hchunk⟩ := mem_factsOf.mp hf'
    rcases h.born f' hmem with ⟨f, hf, hbirth⟩ | ⟨hsource, -⟩
    · refine List.mem_map.mpr ⟨f, mem_factsOf.mpr ⟨hf, ?_⟩, hbirth.symm⟩
      rw [← Fact.sourceChunkId_of_birth hbirth, hchunk]
    · have : f' ∈ db'.touchedOf event id := List.mem_filter.mpr ⟨hf', decide_eq_true hsource⟩
      exact absurd (hnone ▸ this) List.not_mem_nil

theorem IndexOrder.key_birth (order : IndexOrder) (f : Fact) : order.key f.birth = order.key f :=
  rfl

/-- The index text of a chunk is one of what its facts were born with. -/
theorem chunkIndexText_birth (order : IndexOrder) (text : String) (facts : List Fact) :
    chunkIndexText text (ascending order.key facts) =
      chunkIndexText text (ascending order.key (facts.map Fact.birth)) := by
  have hmap : (ascending order.key facts).map Fact.birth =
      ascending order.key (facts.map Fact.birth) := map_ascending order.key_birth facts
  rw [chunkIndexText, chunkIndexText, ← hmap, List.map_map]
  rfl

/-- A chunk none of whose facts the event touched has the index text it had. -/
theorem fullIndexText_of_grows (h : db.Grows env event db')
    (hnone : db'.touchedOf event c.id = []) :
    fullIndexText order db' c = fullIndexText order db c := by
  have hperm := map_birth_perm h hnone
  have hnil : db'.factsOf c.id = [] ↔ db.factsOf c.id = [] := by
    rw [← List.length_eq_zero_iff, ← List.length_map Fact.birth, ← hperm.length_eq,
      List.length_map, List.length_eq_zero_iff]
  have hkey : ∀ a ∈ (db.factsOf c.id).map Fact.birth, ∀ b ∈ (db.factsOf c.id).map Fact.birth,
      order.key a = order.key b → a = b := by
    rintro _ ha _ hb heq
    obtain ⟨f, hf, rfl⟩ := List.mem_map.mp ha
    obtain ⟨g, hg, rfl⟩ := List.mem_map.mp hb
    rw [Db.eq_of_id_eq (mem_factsOf.mp hf).1 (mem_factsOf.mp hg).1 (IndexOrder.id_of_key heq)]
  rw [fullIndexText, fullIndexText, chunkIndexText_birth order c.text (db.factsOf c.id),
    chunkIndexText_birth order c.text (db'.factsOf c.id), ascending_congr hkey hperm]
  simp only [hnil]

end

/-! ## One event -/

/-- Once the candidates of an event are applied, the event has touched all facts of a chunk or none
of them. -/
def EventCovers (env : Env) (extract : Extractor)
    (state : (Db × JobResult) × Table EpisodeChunk) (event : Event) : Prop :=
  ∀ raws ∈ extract event (existingViews env state.1.1 event), admitted env event raws ≠ [] →
    ∀ applied ∈ ((admitted env event raws).foldlM (applyAdmitted env event)
      (state.1.1, raws.foldl (countGate env event) state.1.2)).toOption,
      ∀ c ∈ state.2, Covers applied.1 event c

instance (env : Env) (extract : Extractor) (state : (Db × JobResult) × Table EpisodeChunk)
    (event : Event) : Decidable (EventCovers env extract state event) :=
  inferInstanceAs (Decidable (∀ raws ∈ extract event (existingViews env state.1.1 event), _ → _))

/-- Every chunk of the event has been written. -/
def Chunked (env : Env) (chunks : Table EpisodeChunk) (event : Event) : Prop :=
  ∀ n < (env.chunkPayload event.kind event.payload).length, ⟨event.id, n⟩ ∈ chunks.keys

/-- The partial unique index holds, every fact comes from a chunk that has been written, if from
any, and every chunk is fully indexed. -/
structure Indexed (order : IndexOrder) (db : Db) (chunks : Table EpisodeChunk) : Prop where
  unique : db.UniqueActive
  sourced : ∀ f ∈ db.facts, ∀ id ∈ f.sourceChunkId, id ∈ chunks.keys
  full : FullyIndexed order db chunks

section

variable {env : Env} {order : IndexOrder} {extract : Extractor} {db db' : Db} {event : Event}
  {chunks : Table EpisodeChunk} {state state' : (Db × JobResult) × Table EpisodeChunk}

theorem resolveSourceChunk_mem {span : Option String} {id : ChunkId}
    (h : resolveSourceChunk env event span = some id) (hchunked : Chunked env chunks event) :
    id ∈ chunks.keys := by
  rw [resolveSourceChunk] at h
  split at h
  next => cases h
  next text hone =>
    cases h
    exact hchunked 0 (by rw [hone]; exact Nat.one_pos)
  next =>
    dsimp only at h
    split at h
    · cases h
    · split at h
      next c hc =>
        cases h
        have hmem : c ∈ (env.chunkPayload event.kind event.payload).zipIdx :=
          List.mem_of_mem_filter (hc ▸ List.mem_singleton_self c)
        exact hchunked c.2 (List.snd_lt_of_mem_zipIdx hmem)
      next => cases h

/-- An event without admitted candidates changes nothing.  Otherwise these are applied, and the facts
the event touched are merged. -/
theorem processEventIndexed_eq_ok
    (h : processEventIndexed env order extract state event = .ok state') :
    state'.1.1 = state.1.1 ∧ state'.2 = state.2 ∨
      ∃ raws applied events, extract event (existingViews env state.1.1 event) = some raws ∧
        admitted env event raws ≠ [] ∧
        (admitted env event raws).foldlM (applyAdmitted env event)
          (state.1.1, raws.foldl (countGate env event) state.1.2) = .ok applied ∧
        state'.1.1 = { applied.1 with events := events } ∧
        state'.2 = mergeFactsIntoChunkIndex env order applied.1 event state.2 := by
  obtain ⟨raws, hraws, h⟩ := bind_eq_ok.mp h
  dsimp only at h
  split at h
  · cases h
    exact .inl ⟨rfl, rfl⟩
  · next hsome =>
    obtain ⟨applied, happlied, h⟩ := bind_eq_ok.mp h
    cases h
    obtain ⟨events, hevents⟩ := indexTouchedFacts_eq env applied.1 event
    refine .inr ⟨raws, applied, events, orRaise_eq_ok.mp hraws, ?_, happlied, hevents, ?_⟩
    · exact fun hnil ↦ hsome (List.isEmpty_iff.mpr hnil)
    · rw [hevents]
      rfl

/-- An event that covers the chunks keeps them fully indexed. -/
theorem processEventIndexed_indexed (hI : Indexed order state.1.1 state.2)
    (hchunked : Chunked env state.2 event) (hcovers : EventCovers env extract state event)
    (h : processEventIndexed env order extract state event = .ok state') :
    Indexed order state'.1.1 state'.2 ∧ state'.2.keys = state.2.keys := by
  rcases processEventIndexed_eq_ok h with ⟨hdb, hchunks⟩ |
    ⟨raws, applied, events, hraws, hsome, happlied, hdb, hchunks⟩
  · rw [hdb, hchunks]
    exact ⟨hI, rfl⟩
  · obtain ⟨hu, hgrows⟩ := applied_grows hI.unique happlied
    have hkeys : (mergeFactsIntoChunkIndex env order applied.1 event state.2).keys = state.2.keys :=
      state.2.keys_modify _
    rw [hdb, hchunks]
    refine ⟨⟨hu, fun f' hf' id hid ↦ ?_, ?_⟩, hkeys⟩
    · rw [hkeys]
      rcases hgrows.born f' hf' with ⟨f, hf, hbirth⟩ | ⟨-, span, hchunk⟩
      · exact hI.sourced f hf id (Fact.sourceChunkId_of_birth hbirth ▸ hid)
      · exact resolveSourceChunk_mem (hchunk.symm.trans hid) hchunked
    · have hfull : FullyIndexed order applied.1
          (mergeFactsIntoChunkIndex env order applied.1 event state.2) := by
        refine (mergeFacts_full_iff fun c hc hnone ↦ ?_).mpr ?_
        · rw [hI.full c hc, fullIndexText_of_grows hgrows hnone]
        · exact hcovers raws hraws hsome applied (toOption_eq_some.mpr happlied)
      exact hfull

/-! ## Jobs -/

/-! ### The chunks of the events of a job -/

theorem mem_eventChunks {c : EpisodeChunk} : c ∈ eventChunks env event →
    c.id.event = event.id ∧ c.indexText = some c.text := by
  intro h
  obtain ⟨⟨text, ordinal⟩, -, rfl⟩ := List.mem_map.mp h
  exact ⟨rfl, rfl⟩

theorem mem_keys_eventChunks {n : ℕ}
    (hn : n < (env.chunkPayload event.kind event.payload).length) :
    ⟨event.id, n⟩ ∈ (eventChunks env event).map EpisodeChunk.id := by
  rw [eventChunks, List.map_map]
  refine List.mem_map.mpr ⟨((env.chunkPayload event.kind event.payload)[n], n), ?_, rfl⟩
  exact List.mem_zipIdx_iff_getElem?.mpr (List.getElem?_eq_getElem hn)

theorem keys_writeEpisodeChunks {events : List Event} {id : ChunkId} :
    id ∈ (writeEpisodeChunks env chunks events).keys ↔ id ∈ chunks.keys ∨
      ∃ e ∈ events, (∀ c ∈ chunks, c.id.event ≠ e.id) ∧
        id ∈ (eventChunks env e).map EpisodeChunk.id := by
  rw [writeEpisodeChunks, Table.mem_keys_foldl_insert]
  refine or_congr_right ?_
  simp only [List.map_flatMap, List.mem_flatMap, List.mem_filter, decide_eq_true_eq, and_assoc]
  rfl

/-- Once the chunks of a job are written, every event of the job is chunked. -/
theorem chunked_writeEpisodeChunks {events : List Event}
    (hcomplete : ∀ e ∈ events, (∃ id ∈ chunks.keys, id.event = e.id) → Chunked env chunks e) :
    ∀ e ∈ events, Chunked env (writeEpisodeChunks env chunks events) e := by
  intro e he n hn
  rw [keys_writeEpisodeChunks]
  by_cases hold : ∃ id ∈ chunks.keys, id.event = e.id
  · exact .inl (hcomplete e he hold n hn)
  · refine .inr ⟨e, he, fun c hc heq ↦ hold ⟨c.id, Table.mem_keys.mpr ⟨c, hc, rfl⟩, heq⟩, ?_⟩
    exact mem_keys_eventChunks hn

/-- Chunks that have just been written come before any of their facts. -/
theorem writeEpisodeChunks_indexed (hI : Indexed order db chunks) (events : List Event) :
    Indexed order db (writeEpisodeChunks env chunks events) := by
  refine ⟨hI.unique, fun f hf id hid ↦ ?_, fun c hc ↦ ?_⟩
  · exact keys_writeEpisodeChunks.mpr (.inl (hI.sourced f hf id hid))
  · rcases Table.mem_of_mem_foldl_insert hc with hc | hc
    · exact hI.full c hc
    · obtain ⟨e, he, hc⟩ := List.mem_flatMap.mp hc
      obtain ⟨hevent, htext⟩ := mem_eventChunks hc
      have hnew := of_decide_eq_true (List.mem_filter.mp he).2
      have hnil : db.factsOf c.id = [] := by
        refine List.filter_eq_nil_iff.mpr fun f hf hchunk ↦ ?_
        obtain ⟨c₀, hc₀, hid⟩ := Table.mem_keys.mp (hI.sourced f hf c.id (of_decide_eq_true hchunk))
        exact hnew c₀ hc₀ ((congrArg ChunkId.event hid).trans hevent)
      rw [htext, fullIndexText, if_pos hnil]

/-- Every event of a job covers the chunks. -/
def JobCovers (env : Env) (order : IndexOrder) (extract : Extractor) (db : Db)
    (chunks : Table EpisodeChunk) (eventIds : List EventId) (only : Option (List EventId)) : Prop :=
  FoldMeets (processEventIndexed env order extract) (EventCovers env extract)
    (((jobEvents db eventIds only).foldl (embedEvent env) db, {}),
      writeEpisodeChunks env chunks (jobEvents db eventIds only)) (jobEvents db eventIds only)

instance (env : Env) (order : IndexOrder) (extract : Extractor) (db : Db)
    (chunks : Table EpisodeChunk) (eventIds : List EventId) (only : Option (List EventId)) :
    Decidable (JobCovers env order extract db chunks eventIds only) :=
  inferInstanceAs (Decidable (FoldMeets _ _ _ _))

/-- A job all of whose events cover the chunks keeps them fully indexed. -/
theorem processJobIndexed_indexed {eventIds : List EventId} {only : Option (List EventId)}
    (hI : Indexed order db chunks)
    (hcomplete : ∀ e ∈ db.events, (∃ id ∈ chunks.keys, id.event = e.id) → Chunked env chunks e)
    (hcovers : JobCovers env order extract db chunks eventIds only)
    (h : processJobIndexed env order extract db chunks eventIds only = .ok state') :
    Indexed order state'.1.1 state'.2 ∧
      state'.2.keys = (writeEpisodeChunks env chunks (jobEvents db eventIds only)).keys := by
  have hchunked : ∀ e ∈ jobEvents db eventIds only,
      Chunked env (writeEpisodeChunks env chunks (jobEvents db eventIds only)) e :=
    chunked_writeEpisodeChunks fun e he ↦ hcomplete e (mem_jobEvents he)
  have hstart : Indexed order ((jobEvents db eventIds only).foldl (embedEvent env) db)
      (writeEpisodeChunks env chunks (jobEvents db eventIds only)) := by
    obtain ⟨events, he⟩ := foldl_embedEvent_eq env db (jobEvents db eventIds only)
    rw [he]
    have hwritten : Indexed order db (writeEpisodeChunks env chunks (jobEvents db eventIds only)) :=
      writeEpisodeChunks_indexed hI _
    exact ⟨hwritten.unique, hwritten.sourced, hwritten.full⟩
  refine foldlM_invariant (I := fun s : (Db × JobResult) × Table EpisodeChunk ↦
    Indexed order s.1.1 s.2 ∧
      s.2.keys = (writeEpisodeChunks env chunks (jobEvents db eventIds only)).keys)
    (fun s e s' hs hC hstep ↦ ?_) ⟨hstart, rfl⟩
    (hcovers.and (foldMeets_of_forall_mem (fun e he ↦ he) _)) h
  obtain ⟨hcover, he⟩ := hC
  have hchunks : Chunked env s.2 e := fun n hn ↦ hs.2 ▸ hchunked e he n hn
  obtain ⟨hindexed, hkeys⟩ := processEventIndexed_indexed hs.1 hchunks hcover hstep
  exact ⟨hindexed, hkeys.trans hs.2⟩

/-! ## Runs -/

/-- Every event of the write covers the chunks. -/
def Ingest.Covers (env : Env) (order : IndexOrder) (s : Db × Table EpisodeChunk) : Ingest → Prop
  | .capture _ => True
  | .consolidate now extract eventIds only =>
    JobCovers (env.at now) order extract s.1 s.2 eventIds only

instance (env : Env) (order : IndexOrder) (s : Db × Table EpisodeChunk) (ingest : Ingest) :
    Decidable (ingest.Covers env order s) :=
  match ingest with
  | .capture _ => isTrue trivial
  | .consolidate now extract eventIds only =>
    inferInstanceAs (Decidable (JobCovers (env.at now) order extract s.1 s.2 eventIds only))

/-- Every event of a run covers the chunks, in the state it is processed in. -/
def RunCovers (env : Env) (order : IndexOrder) (s : Db × Table EpisodeChunk)
    (ingests : List Ingest) : Prop :=
  FoldMeets (fun s ingest ↦ (.ok (ingest.run env order s) : Except LedgerError _))
    (Ingest.Covers env order) s ingests

instance (env : Env) (order : IndexOrder) (s : Db × Table EpisodeChunk) (ingests : List Ingest) :
    Decidable (RunCovers env order s ingests) :=
  inferInstanceAs (Decidable (FoldMeets _ _ _ _))

/-- The chunks are indexed, and an event has none of them or all that are cut from it. -/
structure Consistent (env : Env) (order : IndexOrder) (s : Db × Table EpisodeChunk) : Prop
    extends Indexed order s.1 s.2 where
  stored : ∀ id ∈ s.2.keys, ∃ e ∈ s.1.events, e.id = id.event
  complete : ∀ e ∈ s.1.events, (∃ id ∈ s.2.keys, id.event = e.id) → Chunked env s.2 e

theorem consistent_empty (env : Env) (order : IndexOrder) : Consistent env order (.empty, .empty) :=
  ⟨⟨fun _ hf ↦ absurd hf List.not_mem_nil, fun f hf ↦ absurd hf (Table.notMem_empty f),
    fun c hc ↦ absurd hc (Table.notMem_empty c)⟩, fun _ hid ↦ absurd hid List.not_mem_nil,
    fun e he ↦ absurd he (Table.notMem_empty e)⟩

/-- An event that is captured has no chunks yet. -/
theorem Consistent.capture {s : Db × Table EpisodeChunk} (h : Consistent env order s)
    (event : Event) :
    Consistent env order ({ s.1 with events := s.1.events.insert event }, s.2) := by
  refine ⟨⟨h.unique, h.sourced, h.full⟩, fun id hid ↦ ?_, fun e he hchunk ↦ ?_⟩
  · obtain ⟨e, he, heq⟩ := h.stored id hid
    exact ⟨e, Table.mem_insert_of_mem he, heq⟩
  · rcases Table.mem_of_mem_insert he with he | rfl
    · exact h.complete e he hchunk
    · obtain ⟨id, hid, heq⟩ := hchunk
      obtain ⟨e₀, he₀, hid₀⟩ := h.stored id hid
      -- the key is taken, so that nothing is inserted
      have htaken : key e ∈ s.1.events.rows.map key :=
        List.mem_map.mpr ⟨e₀, he₀, hid₀.trans heq⟩
      have he' : e ∈ s.1.events := by
        have hsame : s.1.events.insert e = s.1.events := dif_pos htaken
        exact hsame ▸ he
      exact h.complete e he' ⟨id, hid, heq⟩

/-- A job that covers the chunks keeps them consistent. -/
theorem Consistent.consolidate {s : Db × Table EpisodeChunk} (h : Consistent env order s)
    {now : Timestamp} {eventIds : List EventId} {only : Option (List EventId)}
    (hcovers : JobCovers (env.at now) order extract s.1 s.2 eventIds only)
    (hjob : processJobIndexed (env.at now) order extract s.1 s.2 eventIds only = .ok state') :
    Consistent env order (state'.1.1, state'.2) := by
  have hcomplete : ∀ e ∈ s.1.events, (∃ id ∈ s.2.keys, id.event = e.id) →
      Chunked (env.at now) s.2 e := h.complete
  obtain ⟨hindexed, hkeys⟩ := processJobIndexed_indexed h.toIndexed hcomplete hcovers hjob
  have hledger : processJob (env.at now) extract s.1 eventIds only = .ok state'.1 := by
    rw [← processJobIndexed_fst (env.at now) order extract s.1 s.2 eventIds only, hjob]
    rfl
  have hcaptured := processJob_captured h.unique hledger
  have hchunked : ∀ e ∈ jobEvents s.1 eventIds only, Chunked (env.at now)
      (writeEpisodeChunks (env.at now) s.2 (jobEvents s.1 eventIds only)) e :=
    chunked_writeEpisodeChunks fun e he ↦ hcomplete e (mem_jobEvents he)
  refine ⟨hindexed, fun id hid ↦ ?_, fun e he hchunk n hn ↦ ?_⟩
  · rw [hkeys, keys_writeEpisodeChunks] at hid
    have hevent : ∃ e ∈ s.1.events, e.id = id.event := by
      rcases hid with hid | ⟨e, he, -, hid⟩
      · exact h.stored id hid
      · obtain ⟨c, hc, rfl⟩ := List.mem_map.mp hid
        exact ⟨e, mem_jobEvents he, (mem_eventChunks hc).1.symm⟩
    obtain ⟨e, he, heq⟩ := hevent
    obtain ⟨e', he', hsame⟩ := exists_event_of_captured hcaptured.symm he
    exact ⟨e', he', (Event.id_of_captured hsame).trans heq⟩
  · obtain ⟨e₀, he₀, hsame⟩ := exists_event_of_captured hcaptured he
    have hid := Event.id_of_captured hsame
    have hkind : e₀.kind = e.kind :=
      (congrArg Event.kind hsame : e₀.captured.kind = e.captured.kind)
    have hpayload : e₀.payload = e.payload :=
      (congrArg Event.payload hsame : e₀.captured.payload = e.captured.payload)
    rw [← hkind, ← hpayload] at hn
    rw [hkeys] at hchunk ⊢
    rw [← hid] at hchunk ⊢
    obtain ⟨id, hmem, hevent⟩ := hchunk
    rcases keys_writeEpisodeChunks.mp hmem with hmem | ⟨e₁, he₁, hnew, hmem⟩
    · exact keys_writeEpisodeChunks.mpr (.inl (h.complete e₀ he₀ ⟨id, hmem, hevent⟩ n hn))
    · obtain ⟨c, hc, rfl⟩ := List.mem_map.mp hmem
      obtain rfl : e₁ = e₀ :=
        Table.eq_of_key_eq (mem_jobEvents he₁) he₀ ((mem_eventChunks hc).1.symm.trans hevent)
      exact hchunked e₁ he₁ n hn

theorem Consistent.run {s : Db × Table EpisodeChunk} (h : Consistent env order s)
    {ingest : Ingest} (hcovers : ingest.Covers env order s) :
    Consistent env order (ingest.run env order s) := by
  cases ingest with
  | capture event => exact h.capture event
  | consolidate now extract eventIds only =>
    rw [Ingest.run, Ingest.exec]
    cases hjob : processJobIndexed (env.at now) order extract s.1 s.2 eventIds only with
    | error e => exact h
    | ok state' => exact h.consolidate hcovers hjob

theorem Consistent.runIngests {s : Db × Table EpisodeChunk} {ingests : List Ingest}
    (h : Consistent env order s) (hcovers : RunCovers env order s ingests) :
    Consistent env order (runIngests env order s ingests) := by
  induction ingests generalizing s with
  | nil => exact h
  | cons ingest ingests ih => exact ih (h.run hcovers.1) (hcovers.2 _ rfl)

/-- **The index of the chunks is complete** in every run whose events touch all facts of a chunk or
none. -/
theorem fullyIndexed_run {ingests : List Ingest}
    (hcovers : RunCovers env order (.empty, .empty) ingests) :
    FullyIndexed order (runIngests env order (.empty, .empty) ingests).1
      (runIngests env order (.empty, .empty) ingests).2 :=
  ((consistent_empty env order).runIngests hcovers).full

end

/-! ## Two runs -/

/-- The primary keys in the order in which they are drawn. -/
def IndexOrder.sample : IndexOrder where
  castText value := value.dumps .default
  sortKey text := text.toList.map Char.toNat
  uuid id := Nat.pair id.event id.ordinal
  uuid_injective := by
    rintro ⟨event, ordinal⟩ ⟨event', ordinal'⟩ h
    obtain ⟨rfl, rfl⟩ := Nat.pair_eq_pair.mp h
    rfl

/-- Capture an event and consolidate it, the provider returning `candidates` for it. -/
def Sample.ingest (e : Event) (candidates : List Candidate) : List Ingest :=
  [.capture e, .consolidate e.occurredAt (fun _ _ ↦ some (candidates.map .valid)) [e.id] none]

/-- The one fact of an event is asserted again. -/
def Sample.lyonTwice : List Ingest :=
  ingest (event 1 .trusted) [create "city" "Lyon"] ++
    ingest (event 2 .trusted) [create "city" "Lyon"]

/-- One of the two facts of an event is asserted again. -/
def Sample.bakerOfLyon : List Ingest :=
  ingest (event 1 .trusted) [create "city" "Lyon", create "job" "baker"] ++
    ingest (event 2 .trusted) [create "city" "Lyon"]

theorem fullyIndexed_lyonTwice :
    FullyIndexed .sample (runIngests .sampleChunks .sample (.empty, .empty) Sample.lyonTwice).1
      (runIngests .sampleChunks .sample (.empty, .empty) Sample.lyonTwice).2 :=
  fullyIndexed_run (by decide +kernel)

/-- The fact that is not asserted again is dropped from the index of its chunk. -/
theorem baker_dropped :
    ¬ FullyIndexed .sample
      (runIngests .sampleChunks .sample (.empty, .empty) Sample.bakerOfLyon).1
      (runIngests .sampleChunks .sample (.empty, .empty) Sample.bakerOfLyon).2 := by
  decide +kernel

end Haki
