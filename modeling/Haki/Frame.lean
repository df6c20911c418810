import Haki.System

/-!
# What the write path leaves as it is

`Framed` relates the rows of a table before and after: every row is still there
under its key, with its subject, and a row that was not there is of one of the
subjects that may get new rows.  A job may give new rows to the subjects of its
events (`processJob_framed`); a resolution, a forgotten fact, a disabled
subject and feedback give none to any (`Db.Frozen`).
-/

namespace Haki

open Data Control Scoped

section

variable {α κ : Type} [Keyed α κ] [Scoped α] {new new' : Scope → Prop} {rows rows' rows'' : List α}

/-- Rows keep their key and their subject, and new rows are of the subjects `new`. -/
structure Framed (new : Scope → Prop) (rows rows' : List α) : Prop where
  kept : ∀ a ∈ rows, ∃ a' ∈ rows', key a' = key a ∧ scope a' = scope a
  born : ∀ a' ∈ rows', new (scope a') ∨ ∃ a ∈ rows, key a = key a' ∧ scope a = scope a'

namespace Framed

theorem refl (rows : List α) : Framed new rows rows :=
  ⟨fun a ha ↦ ⟨a, ha, rfl, rfl⟩, fun a ha ↦ .inr ⟨a, ha, rfl, rfl⟩⟩

theorem trans (h : Framed new rows rows') (h' : Framed new rows' rows'') :
    Framed new rows rows'' := by
  constructor
  case kept =>
    intro a ha
    obtain ⟨b, hb, hkb, hsb⟩ := h.kept a ha
    obtain ⟨c, hc, hkc, hsc⟩ := h'.kept b hb
    exact ⟨c, hc, hkc.trans hkb, hsc.trans hsb⟩
  case born =>
    intro c hc
    rcases h'.born c hc with hnew | ⟨b, hb, hkb, hsb⟩
    · exact .inl hnew
    · rcases h.born b hb with hnew | ⟨a, ha, hka, hsa⟩
      · exact .inl (hsb ▸ hnew)
      · exact .inr ⟨a, ha, hka.trans hkb, hsa.trans hsb⟩

theorem mono (h : Framed new rows rows') (hnew : ∀ s, new s → new' s) : Framed new' rows rows' :=
  ⟨h.kept, fun a ha ↦ (h.born a ha).imp_left (hnew _)⟩

/-- Rewriting other columns. -/
theorem map {g : α → α} (hkey : ∀ a, key (g a) = key a) (hscope : ∀ a, scope (g a) = scope a)
    (rows : List α) : Framed new rows (rows.map g) := by
  constructor
  case kept => exact fun a ha ↦ ⟨g a, List.mem_map_of_mem ha, hkey a, hscope a⟩
  case born =>
    intro a' ha'
    obtain ⟨a, ha, rfl⟩ := List.mem_map.mp ha'
    exact .inr ⟨a, ha, (hkey a).symm, (hscope a).symm⟩

/-- A new row of one of the subjects. -/
theorem concat {a : α} (ha : new (scope a)) (rows : List α) : Framed new rows (rows ++ [a]) := by
  constructor
  case kept => exact fun b hb ↦ ⟨b, List.mem_append_left _ hb, rfl, rfl⟩
  case born =>
    intro b hb
    rcases List.mem_append.mp hb with hb | hb
    · exact .inr ⟨b, hb, rfl, rfl⟩
    · obtain rfl := List.mem_singleton.mp hb
      exact .inl ha

variable [DecidableEq κ]

theorem update {k : κ} {g : α → α} (hkey : ∀ a, key (g a) = key a)
    (hscope : ∀ a, scope (g a) = scope a) (t : Table α) :
    Framed new t.rows (t.update k g).rows := by
  rw [Table.rows_update fun a _ ↦ hkey a]
  refine map (fun a ↦ ?_) (fun a ↦ ?_) t.rows
  · split
    · exact hkey a
    · rfl
  · split
    · exact hscope a
    · rfl

theorem insert {a : α} (ha : new (scope a)) (t : Table α) :
    Framed new t.rows (t.insert a).rows := by
  by_cases h : key a ∈ t.rows.map key
  · rw [Table.insert, dif_pos h]
    exact refl t.rows
  · rw [Table.rows_insert fun b hb hk ↦ h (List.mem_map.mpr ⟨b, hb, hk⟩)]
    exact concat ha t.rows

end Framed

end

/-! ## Ledgers -/

/-- Rows keep their key and their subject, new facts and conflict sets are of the subjects `new`,
and there are no new events and traces. -/
structure Db.Framed (new : Scope → Prop) (db db' : Db) : Prop where
  events : Haki.Framed (fun _ ↦ False) db.events.rows db'.events.rows
  facts : Haki.Framed new db.facts.rows db'.facts.rows
  conflictSets : Haki.Framed new db.conflictSets.rows db'.conflictSets.rows
  contextTraces : db'.contextTraces = db.contextTraces

/-- Nothing new at all. -/
abbrev Db.Frozen (db db' : Db) : Prop := db.Framed (fun _ ↦ False) db'

namespace Db.Framed

variable {new new' : Scope → Prop} {db db' db'' : Db}

theorem refl (db : Db) : db.Framed new db := ⟨.refl _, .refl _, .refl _, rfl⟩

theorem trans (h : db.Framed new db') (h' : db'.Framed new db'') : db.Framed new db'' :=
  ⟨h.events.trans h'.events, h.facts.trans h'.facts, h.conflictSets.trans h'.conflictSets,
    h'.contextTraces.trans h.contextTraces⟩

theorem mono (h : db.Framed new db') (hnew : ∀ s, new s → new' s) : db.Framed new' db' :=
  ⟨h.events, h.facts.mono hnew, h.conflictSets.mono hnew, h.contextTraces⟩

theorem updateFact {id : FactId} {g : Fact → Fact}
    (hg : ∀ f, (g f).id = f.id ∧ (g f).scope = f.scope) : db.Framed new (db.updateFact id g) :=
  ⟨.refl _, .update (fun f ↦ (hg f).1) (fun f ↦ (hg f).2) db.facts, .refl _, rfl⟩

theorem updateConflictSet {id : ConflictId} {g : ConflictSet → ConflictSet}
    (hg : ∀ s, (g s).id = s.id ∧ (g s).scope = s.scope) :
    db.Framed new (db.updateConflictSet id g) :=
  ⟨.refl _, .refl _, .update (fun s ↦ (hg s).1) (fun s ↦ (hg s).2) db.conflictSets, rfl⟩

theorem updateEvent {id : EventId} {g : Event → Event}
    (hg : ∀ e, (g e).id = e.id ∧ (g e).scope = e.scope) :
    db.Framed new { db with events := db.events.update id g } :=
  ⟨.update (fun e ↦ (hg e).1) (fun e ↦ (hg e).2) db.events, .refl _, .refl _, rfl⟩

end Db.Framed

/-! ## Jobs -/

section

variable {env : Env} {extract : Extractor} {db db' : Db} {event : Event}

theorem Adjudicated.framed {c c' : Candidate} {existing : Option Fact} {row : Fact} {e : Effect}
    (h : Adjudicated env db event c c' existing row e) :
    db.Framed (· = event.scope) (e.apply env event db row) := by
  constructor
  case events => exact .refl _
  case facts =>
    constructor
    · intro f hf
      refine ⟨e.onFact env event f, (Effect.mem_apply h.fresh).mpr (.inl ⟨f, hf, rfl⟩), ?_, ?_⟩
      · exact e.onFact_id env event f
      · exact Fact.scope_of_content (e.onFact_content f)
    · intro f' hf'
      rcases h.mem_apply hf' with ⟨f, hf, -, hid, hcontent⟩ | ⟨-, -, hcontent⟩
      · exact .inr ⟨f, hf, hid, Fact.scope_of_content hcontent⟩
      · exact .inl ((Fact.scope_of_content hcontent).trans h.scope)
  case conflictSets =>
    show Framed _ db.conflictSets.rows (e.onSets env event db row.id).rows
    have new (ids : List FactId) (kind : ConflictKind) : Framed (· = event.scope)
        db.conflictSets.rows (db.conflictSets.insert (newConflictSet env db event ids kind)).rows :=
      .insert (show (newConflictSet env db event ids kind).scope = event.scope from rfl) _
    have known (id : ConflictId) (g : ConflictSet → ConflictSet) (hid : ∀ s, (g s).id = s.id)
        (hscope : ∀ s, (g s).scope = s.scope) : Framed (· = event.scope) db.conflictSets.rows
          (db.conflictSets.update id g).rows := .update hid hscope _
    cases e with
    | hold => exact new _ _
    | openConflict old => exact new _ _
    | joinConflict s => exact known _ _ (fun _ ↦ rfl) fun _ ↦ rfl
    | overflow old s other => exact known _ _ (fun _ ↦ rfl) fun _ ↦ rfl
    | accept | replace => exact .refl _
  case contextTraces => rfl

theorem applyCandidate_framed {c : Candidate} {embedding : Embedding} {result result' : JobResult}
    (hu : db.UniqueActive)
    (h : applyCandidate env db c embedding event result = .ok (db', result')) :
    db.Framed (· = event.scope) db' := by
  cases applyCandidate_applied hu h with
  | counted => exact ⟨.refl _, .refl _, .refl _, rfl⟩
  | reinforced aliases f =>
    have hframed : db.Framed (· = event.scope) (db.updateFact f.id (·.reinforcedBy event)) :=
      .updateFact fun _ ↦ ⟨rfl, rfl⟩
    obtain ⟨he, hf, hs, ht⟩ := hframed
    exact ⟨he, hf, hs, ht⟩
  | written aliases c' existing row e _ hadj =>
    obtain ⟨he, hf, hs, ht⟩ := hadj.framed
    exact ⟨he, hf, hs, ht⟩

theorem indexTouchedFacts_framed (new : Scope → Prop) :
    db.Framed new (indexTouchedFacts env db event) := by
  rw [indexTouchedFacts]
  dsimp only
  split
  · exact .refl db
  · exact .updateEvent fun _ ↦ ⟨rfl, rfl⟩

theorem embedEvents_framed (new : Scope → Prop) (events : List Event) :
    db.Framed new (events.foldl (embedEvent env) db) := by
  induction events generalizing db with
  | nil => exact .refl db
  | cons event events ih =>
    refine .trans ?_ ih
    rw [embedEvent]
    split
    · exact .refl db
    · exact .updateEvent fun _ ↦ ⟨rfl, rfl⟩

/-- Processing an event gives new rows to its subject only. -/
theorem processEvent_framed {state state' : Db × JobResult} (hu : state.1.UniqueActive)
    (h : processEvent env extract state event = .ok state') :
    state'.1.UniqueActive ∧ state.1.Framed (· = event.scope) state'.1 := by
  obtain ⟨raws, -, h⟩ := bind_eq_ok.mp h
  dsimp only at h
  split at h
  · cases h
    exact ⟨hu, .refl _⟩
  · obtain ⟨s, hs, h⟩ := bind_eq_ok.mp h
    cases h
    have hrun : s.1.UniqueActive ∧ state.1.Framed (· = event.scope) s.1 := by
      refine foldlM_preserves (I := fun s : Db × JobResult ↦
        s.1.UniqueActive ∧ state.1.Framed (· = event.scope) s.1) (fun s c s' hI hstep ↦ ?_)
        (s := (state.1, raws.foldl (countGate env event) state.2)) ⟨hu, .refl _⟩ hs
      rcases applyAdmitted_cases hstep with ⟨reason, -, rfl⟩ | ⟨-, hstep⟩
      · exact hI
      · exact ⟨applyCandidate_unique hI.1 hstep, hI.2.trans (applyCandidate_framed hI.1 hstep)⟩
    have hindex : s.1.Framed (· = event.scope) (indexTouchedFacts env s.1 event) :=
      indexTouchedFacts_framed _
    refine ⟨?_, hrun.2.trans hindex⟩
    obtain ⟨events, he⟩ := indexTouchedFacts_eq env s.1 event
    rw [he]
    exact hrun.1

theorem mem_jobEvents {eventIds : List EventId} {only : Option (List EventId)} {e : Event}
    (h : e ∈ jobEvents db eventIds only) : e ∈ db.events := by
  rw [jobEvents, List.mem_filter, List.mem_insertionSort, List.mem_filter] at h
  exact h.1.1

/-- **Job frame.**  A job gives new rows to the subjects of its events only. -/
theorem processJob_framed {eventIds : List EventId} {only : Option (List EventId)}
    {state' : Db × JobResult} (hu : db.UniqueActive)
    (h : processJob env extract db eventIds only = .ok state') :
    db.Framed (fun s ↦ ∃ e ∈ db.events, e.scope = s) state'.1 := by
  have hevents : FoldMeets (processEvent env extract) (fun _ e ↦ e ∈ db.events)
      ((jobEvents db eventIds only).foldl (embedEvent env) db, {}) (jobEvents db eventIds only) :=
    foldMeets_of_forall_mem (fun e he ↦ mem_jobEvents he) _
  refine (foldlM_invariant (I := fun s : Db × JobResult ↦ s.1.UniqueActive ∧
    db.Framed (fun s ↦ ∃ e ∈ db.events, e.scope = s) s.1) (fun s e s' hI he hs ↦ ?_)
      (And.intro ?_ (embedEvents_framed _ _)) hevents h).2
  · obtain ⟨hu', hframed⟩ := processEvent_framed hI.1 hs
    exact ⟨hu', hI.2.trans (hframed.mono fun s hs ↦ ⟨e, he, hs.symm⟩)⟩
  · obtain ⟨events, he⟩ := foldl_embedEvent_eq env db (jobEvents db eventIds only)
    rw [he]
    exact hu

/-! ### What was captured of an event -/

/-- An event without its derived columns. -/
def Event.captured (event : Event) : Event := { event with embedding := none, indexText := none }

theorem Event.id_of_captured {e e' : Event} (h : e.captured = e'.captured) : e.id = e'.id :=
  (congrArg Event.id h : e.captured.id = e'.captured.id)

/-- Events that were captured alike differ in their derived columns only. -/
theorem Event.eq_of_captured {e e' : Event} (h : e.captured = e'.captured) :
    e' = { e with embedding := e'.embedding, indexText := e'.indexText } := by
  cases e
  cases e'
  simp only [captured, Event.mk.injEq, and_true] at h ⊢
  exact ⟨h.1.symm, h.2.1.symm, h.2.2.1.symm, h.2.2.2.1.symm, h.2.2.2.2.1.symm, h.2.2.2.2.2.1.symm,
    h.2.2.2.2.2.2.symm⟩

/-- The events without their derived columns. -/
def Db.captured (db : Db) : List Event := db.events.rows.map Event.captured

theorem captured_updateEvent {id : EventId} {g : Event → Event}
    (hg : ∀ e, (g e).captured = e.captured) :
    ({ db with events := db.events.update id g } : Db).captured = db.captured := by
  rw [Db.captured, Table.rows_update fun e _ ↦ Event.id_of_captured (hg e), List.map_map]
  refine List.map_congr_left fun e _ ↦ ?_
  rw [Function.comp_apply]
  split
  · exact hg e
  · rfl

theorem embedEvents_captured (env : Env) (db : Db) (events : List Event) :
    (events.foldl (embedEvent env) db).captured = db.captured := by
  induction events generalizing db with
  | nil => rfl
  | cons event events ih =>
    refine (ih _).trans ?_
    rw [embedEvent]
    split
    · rfl
    · exact captured_updateEvent fun _ ↦ rfl

theorem indexTouchedFacts_captured (env : Env) (db : Db) (event : Event) :
    (indexTouchedFacts env db event).captured = db.captured := by
  rw [indexTouchedFacts]
  dsimp only
  split
  · rfl
  · exact captured_updateEvent fun _ ↦ rfl

theorem applyCandidate_events {c : Candidate} {embedding : Embedding} {result result' : JobResult}
    (hu : db.UniqueActive)
    (h : applyCandidate env db c embedding event result = .ok (db', result')) :
    db'.events = db.events := by
  cases applyCandidate_applied hu h with
  | counted | reinforced | written => rfl

theorem processEvent_captured {s s' : Db × JobResult} (hu : s.1.UniqueActive)
    (h : processEvent env extract s event = .ok s') : s'.1.captured = s.1.captured := by
  obtain ⟨raws, -, h⟩ := bind_eq_ok.mp h
  dsimp only at h
  split at h
  · cases h
    rfl
  · obtain ⟨applied, happlied, h⟩ := bind_eq_ok.mp h
    cases h
    refine (indexTouchedFacts_captured env applied.1 event).trans ?_
    have hevents : applied.1.UniqueActive ∧ applied.1.events = s.1.events := by
      refine foldlM_preserves (I := fun t : Db × JobResult ↦
        t.1.UniqueActive ∧ t.1.events = s.1.events) (fun t c t' hI hstep ↦ ?_)
        (s := (s.1, raws.foldl (countGate env event) s.2)) ⟨hu, rfl⟩ happlied
      rcases applyAdmitted_cases hstep with ⟨reason, -, rfl⟩ | ⟨-, hstep⟩
      · exact hI
      · exact ⟨applyCandidate_unique hI.1 hstep,
          (applyCandidate_events hI.1 hstep).trans hI.2⟩
    rw [Db.captured, hevents.2, ← Db.captured]

/-- A job writes the derived columns of events only. -/
theorem processJob_captured {eventIds : List EventId} {only : Option (List EventId)}
    {s' : Db × JobResult} (hu : db.UniqueActive)
    (h : processJob env extract db eventIds only = .ok s') : s'.1.captured = db.captured := by
  refine (foldlM_preserves (I := fun s : Db × JobResult ↦
    s.1.UniqueActive ∧ s.1.captured = db.captured) (fun s e s' hI hs ↦ ?_)
      (And.intro ?_ (embedEvents_captured env db _)) h).2
  · exact ⟨(processEvent_framed hI.1 hs).1, (processEvent_captured hI.1 hs).trans hI.2⟩
  · obtain ⟨events, he⟩ := foldl_embedEvent_eq env db (jobEvents db eventIds only)
    rw [he]
    exact hu

theorem exists_event_of_captured (h : db'.captured = db.captured) {e : Event}
    (he : e ∈ db'.events) : ∃ e₀ ∈ db.events, e₀.captured = e.captured := by
  have hmem : e.captured ∈ db.captured := h ▸ List.mem_map_of_mem he
  exact List.mem_map.mp hmem

/-- A job has the same events, but for their derived columns, while what was captured is the same. -/
theorem jobEvents_captured (h : db'.captured = db.captured) {eventIds : List EventId}
    {only : Option (List EventId)} {e : Event} (he : e ∈ jobEvents db' eventIds only) :
    ∃ e₀ ∈ jobEvents db eventIds only, e₀.captured = e.captured := by
  rw [jobEvents, List.mem_filter, List.mem_insertionSort, List.mem_filter] at he
  obtain ⟨⟨hmem, hid⟩, honly⟩ := he
  obtain ⟨e₀, he₀, hsame⟩ := exists_event_of_captured h hmem
  have hid₀ := Event.id_of_captured hsame
  refine ⟨e₀, ?_, hsame⟩
  rw [jobEvents, List.mem_filter, List.mem_insertionSort, List.mem_filter, hid₀]
  exact ⟨⟨he₀, hid⟩, honly⟩

end

/-! ## The other operations -/

section

variable {now : Timestamp} {db db' : Db} {projectId : String}

theorem Db.Frozen.framed {new : Scope → Prop} (h : db.Frozen db') : db.Framed new db' :=
  h.mono fun _ ↦ False.elim

theorem resolveConflict_frozen {id : ConflictId} {keep : FactId}
    (h : resolveConflict now db projectId id keep = .ok db') : db.Frozen db' := by
  obtain ⟨conflict, db₁, -, -, -, hwalk, rfl⟩ := resolveConflict_eq_ok h
  refine Db.Framed.trans ?_ (.updateConflictSet fun s ↦ ⟨s.resolve_id now, rfl⟩)
  refine foldlM_preserves (I := db.Frozen) (fun db₁ id db₂ hI h ↦ hI.trans ?_) (.refl db) hwalk
  rcases resolveMember_eq_ok h with rfl | ⟨g, hg, rfl⟩
  · exact .refl db₂
  · exact .updateFact fun f ↦ ⟨(hg f).1, (hg f).2.1⟩

theorem forgetFact_frozen {id : FactId} {mode : ForgetMode}
    (h : forgetFact now db projectId id mode = .ok db') : db.Frozen db' := by
  rcases forgetFact_eq_ok h with rfl | ⟨-, rfl⟩
  · exact .refl db'
  · exact .updateFact fun f ↦ ⟨f.forgotten_id mode now, (f.withdrawn_forgotten mode now).scope⟩

theorem disableSubject_frozen {scope : Scope} (h : disableSubject now db scope = .ok db') :
    db.Frozen db' := by
  refine foldlM_preserves (I := db.Frozen) (fun db₁ id db₂ hI h ↦ hI.trans ?_) (.refl db) h
  obtain ⟨-, -, -, rfl, -⟩ := transitionFactStatus_eq_ok h
  exact .updateFact fun _ ↦ ⟨rfl, rfl⟩

theorem submitFeedback_frozen {id : FactId} {rating : Rating}
    (h : submitFeedback now db projectId id rating = .ok db') : db.Frozen db' := by
  rcases submitFeedback_eq_ok h with rfl | ⟨-, rfl⟩
  · exact .refl db'
  · exact .updateFact fun _ ↦ ⟨rfl, rfl⟩

end

end Haki
