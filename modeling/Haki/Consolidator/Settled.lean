import Haki.Consolidator.Assertions
import Mathlib.Data.List.Find

/-!
# What keeps an assertion settled

A step of the consolidator rewrites the facts that are there, closes one at
most, lists its event in one at most, and adds one row at most (`Db.StepsTo`).
What is settled with a view to these stays settled, unless the row gets in its
way (`Settled.stepsTo`).
-/

namespace Haki

open Data Control

/-- A fact before and after a step. -/
structure Fact.StepsTo (closed : Option FactId) (heard : Option (FactId × EventId))
    (f f' : Fact) : Prop where
  id : f'.id = f.id
  wording : f'.wording = f.wording
  deleted : f'.status = .deleted ↔ f.status = .deleted
  active : f'.status = .active ↔ f.Live closed
  sources : ∀ e ∈ f.sourceEventIds, e ∈ f'.sourceEventIds
  heard : f.Live closed → ∀ e, (f.id, e) ∈ heard → e ∈ f'.sourceEventIds

/-- A ledger before and after a step that closes a fact, lists an event in a fact, and adds a row. -/
structure Db.StepsTo (db db' : Db) (closed : Option FactId) (heard : Option (FactId × EventId))
    (row : Option Fact) : Prop where
  facts : ∃ g : Fact → Fact, db'.facts.rows = db.facts.rows.map g ++ row.toList ∧
    ∀ f ∈ db.facts, f.StepsTo closed heard (g f)
  predicateAliases : db'.predicateAliases = db.predicateAliases
  contextTraces : db'.contextTraces = db.contextTraces
  fresh : ∀ r ∈ row, r.id ∉ db.factIds

variable {env : Env} {db db' : Db} {closed : Option FactId} {heard : Option (FactId × EventId)}
  {row : Option Fact} {f f' r : Fact} {p : Assertion} {w : Wording}

theorem Db.StepsTo.mem (hm : db.StepsTo db' closed heard row) (hf' : f' ∈ db'.facts) :
    (∃ f ∈ db.facts, f.StepsTo closed heard f') ∨ f' ∈ row := by
  obtain ⟨g, hrows, hg⟩ := hm.facts
  rw [← Table.mem_rows, hrows] at hf'
  rcases List.mem_append.mp hf' with hf' | hf'
  · obtain ⟨f, hf, rfl⟩ := List.mem_map.mp hf'
    exact .inl ⟨f, hf, hg f hf⟩
  · exact .inr (Option.mem_toList.mp hf')

theorem Db.StepsTo.exists_mem (hm : db.StepsTo db' closed heard row) (hf : f ∈ db.facts) :
    ∃ f' ∈ db'.facts, f.StepsTo closed heard f' := by
  obtain ⟨g, hrows, hg⟩ := hm.facts
  refine ⟨g f, ?_, hg f hf⟩
  rw [← Table.mem_rows, hrows]
  exact List.mem_append_left _ (List.mem_map_of_mem hf)

theorem Db.StepsTo.mem_row (hm : db.StepsTo db' closed heard row) (hr : r ∈ row) : r ∈ db'.facts := by
  obtain ⟨g, hrows, -⟩ := hm.facts
  rw [← Table.mem_rows, hrows]
  exact List.mem_append_right _ (Option.mem_toList.mpr hr)

theorem Fact.StepsTo.live (h : f.StepsTo closed heard f') : f'.Live none ↔ f.Live closed :=
  Fact.live_none.trans h.active

theorem Fact.StepsTo.refl (f : Fact) : f.StepsTo none none f :=
  ⟨rfl, rfl, .rfl, Fact.live_none.symm, fun _ h ↦ h, by rintro - _ ⟨⟩⟩

/-- A duplicate that is counted or reinforced lists the event, if it is active. -/
theorem Db.StepsTo.duplicate (hf : f ∈ db.facts) (event : Event) (result : JobResult) :
    db.StepsTo (reinforceOrCountDuplicate db f event result).1 none (some (f.id, event.id)) none := by
  rw [reinforceOrCountDuplicate]
  split
  · next hstale =>
    refine ⟨⟨id, by simp, fun g hg ↦ ?_⟩, rfl, rfl, by rintro _ ⟨⟩⟩
    refine ⟨rfl, rfl, .rfl, Fact.live_none.symm, fun _ h ↦ h, fun hlive e he ↦ ?_⟩
    obtain ⟨hid, rfl⟩ := Prod.mk.inj (Option.some.inj he)
    obtain rfl := Db.eq_of_id_eq hf hg hid
    exact hstale.resolve_left (not_not.mpr hlive.1)
  · refine ⟨⟨fun g ↦ if g.id = f.id then g.reinforcedBy event else g, ?_, fun g _ ↦ ?_⟩,
      rfl, rfl, by rintro _ ⟨⟩⟩
    · exact (Table.rows_update (fun g _ ↦ g.reinforcedBy_id event) db.facts).trans
        (List.append_nil _).symm
    · dsimp only
      split
      · next hid =>
        refine ⟨rfl, rfl, .rfl, Fact.live_none.symm, fun e he ↦ List.mem_append_left _ he, ?_⟩
        intro _ e he
        obtain ⟨-, rfl⟩ := Prod.mk.inj (Option.some.inj he)
        exact List.mem_append_right _ List.mem_cons_self
      · next hid =>
        refine ⟨rfl, rfl, .rfl, Fact.live_none.symm, fun _ he ↦ he, fun _ e he ↦ ?_⟩
        exact absurd (Prod.mk.inj (Option.some.inj he)).1.symm hid

/-- The fact an effect closes. -/
def Effect.closes : Effect → Option FactId
  | .replace old => some old.id
  | _ => none

theorem Effect.onFact_stepsTo {event : Event} {e : Effect} (hf : f ∈ db.facts)
    (hold : ∀ old, e = .replace old → old ∈ db.facts ∧ old.status = .active)
    (he : ∀ old s other, e ≠ .overflow old s other) :
    f.StepsTo e.closes none (e.onFact env event f) := by
  cases e with
  | replace old =>
    obtain ⟨hm, ha⟩ := hold old rfl
    rw [Effect.onFact, Effect.closes]
    split
    · next hid =>
      obtain rfl := Db.eq_of_id_eq hf hm hid
      refine ⟨rfl, rfl, ?_, ?_, fun _ h ↦ h, by rintro - _ ⟨⟩⟩
      · exact iff_of_false (by rintro ⟨⟩) (by rw [ha]; decide)
      · exact iff_of_false (by rintro ⟨⟩) fun hlive ↦ hlive.2 rfl
    · next hid =>
      refine ⟨rfl, rfl, .rfl, ?_, fun _ h ↦ h, by rintro - _ ⟨⟩⟩
      exact (and_iff_left fun h ↦ hid (Option.some.inj h).symm).symm
  | overflow old s other => exact absurd rfl (he old s other)
  | _ => exact .refl f

/-- Any effect but an overflow closes one fact at most. -/
theorem Adjudicated.stepsTo {event : Event} {c c' : Candidate} {existing : Option Fact} {row : Fact}
    {e : Effect} (hadj : Adjudicated env db event c c' existing row e)
    (he : ∀ old s other, e ≠ .overflow old s other) :
    db.StepsTo (e.apply env event db row) e.closes none (some (e.onRow env row)) := by
  refine ⟨⟨e.onFact env event, ?_, fun f hf ↦ ?_⟩, rfl, rfl, ?_⟩
  · rw [Effect.apply, Table.rows_insert (Effect.fresh_onRow hadj.fresh),
      Table.rows_modify (e.onFact_id env event)]
    rfl
  · refine Effect.onFact_stepsTo hf (fun old h ↦ ?_) he
    subst h
    obtain ⟨-, hx, -⟩ := hadj.guard
    exact ⟨(hadj.active old hx).1, (hadj.active old hx).2.2⟩
  · rintro _ ⟨⟩
    rw [e.onRow_id, hadj.id]
    exact db.freshFactId_notMem event.id

/-! ## The gate -/

/-- The facts served lately. -/
def Db.served (db : Db) (scope : Scope) : List Fact :=
  db.facts.rows.filter fun f ↦ f.id ∈ recentlyServedFactIds db scope

theorem Db.mem_factIds_of_served {scope : Scope} {id : FactId}
    (h : id ∈ recentlyServedFactIds db scope) : id ∈ db.factIds := by
  obtain ⟨trace, htrace, hid⟩ := List.mem_flatMap.mp h
  have htrace := List.mem_of_mem_take htrace
  rw [List.mem_insertionSort] at htrace
  exact List.mem_append_right _ (List.mem_flatMap.mpr ⟨trace, List.mem_of_mem_filter htrace, hid⟩)

/-- A step adds nothing to what was served, and leaves it its wording. -/
theorem Db.StepsTo.served (hm : db.StepsTo db' closed heard row) (scope : Scope) :
    (db'.served scope).map Fact.wording = (db.served scope).map Fact.wording := by
  obtain ⟨g, hrows, hg⟩ := hm.facts
  have hids : recentlyServedFactIds db' scope = recentlyServedFactIds db scope := by
    rw [recentlyServedFactIds, hm.contextTraces, ← recentlyServedFactIds]
  have hrow : (row.toList.filter fun f ↦ f.id ∈ recentlyServedFactIds db scope) = [] := by
    refine List.filter_eq_nil_iff.mpr fun r hr hid ↦ ?_
    exact hm.fresh r (Option.mem_toList.mp hr) (mem_factIds_of_served (of_decide_eq_true hid))
  have hfilter : (db.facts.rows.filter
      ((fun f : Fact ↦ decide (f.id ∈ recentlyServedFactIds db scope)) ∘ g)) = db.served scope := by
    refine List.filter_congr fun f hf ↦ ?_
    rw [Function.comp_apply, (hg f hf).id]
  rw [Db.served, hids, hrows, List.filter_append, hrow, List.append_nil, List.filter_map, hfilter,
    List.map_map]
  exact List.map_congr_left fun f hf ↦ (hg f (List.mem_of_mem_filter hf)).wording

/-- What is an echo stays one, and nothing becomes one. -/
theorem Db.StepsTo.antiEchoReason (hm : db.StepsTo db' closed heard row) (event : Event)
    (c : Candidate) : antiEchoReason env event db' c = antiEchoReason env event db c := by
  have hserved := hm.served event.scope
  -- Distances and values are read off the wordings.
  have hdistances : ((db'.served event.scope).filterMap fun f ↦
        f.embedding.map fun v ↦ env.cosineDistance v (candidateEmbedding env c)) =
      (db.served event.scope).filterMap fun f ↦
        f.embedding.map fun v ↦ env.cosineDistance v (candidateEmbedding env c) := by
    have h := congrArg (List.filterMap fun w : Wording ↦
      w.embedding.map fun v ↦ env.cosineDistance v (candidateEmbedding env c)) hserved
    rw [List.filterMap_map, List.filterMap_map] at h
    exact h
  have hvalues : ((db'.served event.scope).map fun f ↦ canonical f.value) =
      (db.served event.scope).map fun f ↦ canonical f.value := by
    have h := congrArg (List.map fun w : Wording ↦ canonical w.value) hserved
    rw [List.map_map, List.map_map] at h
    exact h
  have hreason : echoRejectReason env db' event.scope (candidateEmbedding env c) c.value =
      echoRejectReason env db event.scope (candidateEmbedding env c) c.value := by
    dsimp only [echoRejectReason]
    dsimp only [Db.served] at hdistances hvalues
    rw [hdistances, hvalues]
  rw [Haki.antiEchoReason, Haki.antiEchoReason, hreason]

/-! ## Assertions across a step -/

theorem Db.StepsTo.aliasOf (hm : db.StepsTo db' closed heard row) (scope : Scope) (predicate : String) :
    db'.aliasOf scope predicate = db.aliasOf scope predicate := by
  rw [Db.aliasOf, hm.predicateAliases, ← Db.aliasOf]

namespace Assertion

theorem said_stepsTo (h : f.StepsTo closed heard f') : p.Said f' ↔ p.Said f := by
  rw [Said, Said, h.wording, Ne, h.deleted]

theorem named_stepsTo (hm : db.StepsTo db' closed heard row) : p.Named db' w ↔ p.Named db w := by
  rw [Named, Named, hm.aliasOf]

theorem reaches_stepsTo (hm : db.StepsTo db' closed heard row) :
    p.Reaches env db' w ↔ p.Reaches env db w := by
  rw [Reaches, Reaches, named_stepsTo hm]

theorem teaches_stepsTo (hm : db.StepsTo db' closed heard row) :
    p.Teaches env db' w ↔ p.Teaches env db w := by
  rw [Teaches, Teaches, hm.aliasOf]

theorem Lists.stepsTo (hf : f.StepsTo closed heard f') (hlive : f.Live closed)
    (h : p.Lists heard f) : p.Lists none f' :=
  .inl (h.elim (hf.sources _) (hf.heard hlive _))

/-- The first active fact that says it is the one it was. -/
theorem Told.stepsTo (hm : db.StepsTo db' closed heard row) (h : p.Told db closed heard) :
    p.Told db' none none := by
  obtain ⟨f, hf, hlists⟩ := h
  obtain ⟨g, hrows, hg⟩ := hm.facts
  have hf := Option.mem_def.mp hf
  have hfind : db.facts.rows.find? ((fun f ↦ decide (p.Said f ∧ f.Live none)) ∘ g) = some f := by
    refine (List.find?_congr fun a ha ↦ ?_).trans hf
    exact decide_eq_decide.mpr (and_congr (said_stepsTo (hg a ha)) (hg a ha).live)
  have hlive : f.Live closed := by
    have hfound := List.find?_some hf
    exact (of_decide_eq_true hfound).2
  refine ⟨g f, ?_, hlists.stepsTo (hg f (List.mem_of_find?_eq_some hf)) hlive⟩
  rw [hrows, List.find?_append, List.find?_map, hfind]
  rfl

/-- An active row that says it and lists the event is the first one. -/
theorem Told.of_row (hm : db.StepsTo db' closed heard (some r))
    (hlive : ∀ f ∈ db.facts, f.Live closed → ¬ p.SaidBy f.wording) (ha : r.status = .active)
    (hsaid : p.SaidBy r.wording) (hlisted : p.eventId ∈ r.sourceEventIds) : p.Told db' none none := by
  obtain ⟨g, hrows, hg⟩ := hm.facts
  have hnone : (db.facts.rows.map g).find? (fun f ↦ p.Said f ∧ f.Live none) = none := by
    refine List.find?_eq_none.mpr fun f' hf' hfound ↦ ?_
    obtain ⟨f, hf, rfl⟩ := List.mem_map.mp hf'
    obtain ⟨⟨-, hsaid⟩, hfound⟩ := of_decide_eq_true hfound
    exact hlive f hf ((hg f hf).live.mp hfound) ((hg f hf).wording ▸ hsaid)
  have hr : p.Said r ∧ r.Live none := ⟨⟨by rw [ha]; decide, hsaid⟩, Fact.live_none.mpr ha⟩
  refine ⟨r, ?_, .inl hlisted⟩
  rw [hrows, List.find?_append, hnone, Option.none_or]
  exact List.find?_cons_of_pos (decide_eq_true hr)

/-- A row that is not active does not wake what is dormant, nor one that is no help to it. -/
theorem Dormant.stepsTo (hm : db.StepsTo db' closed heard row) (h : p.Dormant env db closed)
    (hrow : ∀ r ∈ row, r.status = .active → ¬ p.SaidBy r.wording ∧ ¬ p.Reaches env db r.wording) :
    p.Dormant env db' none := by
  obtain ⟨⟨d, hd, hsaid⟩, hlive⟩ := h
  obtain ⟨d', hd', hstep⟩ := hm.exists_mem hd
  refine ⟨⟨d', hd', (said_stepsTo hstep).mpr hsaid⟩, fun f' hf' ha ↦ ?_⟩
  rw [reaches_stepsTo hm]
  rcases hm.mem hf' with ⟨f, hf, hstep⟩ | hr
  · rw [hstep.wording]
    exact hlive f hf (hstep.live.mp ha)
  · exact hrow f' hr (Fact.live_none.mp ha)

/-- A row that says it and is not active leaves it dormant. -/
theorem Dormant.of_row (hm : db.StepsTo db' closed heard (some r))
    (hlive : ∀ f ∈ db.facts, f.Live closed → ¬ p.SaidBy f.wording ∧ ¬ p.Reaches env db f.wording)
    (hs : r.status = .candidate) (hsaid : p.SaidBy r.wording) : p.Dormant env db' none := by
  refine ⟨⟨r, hm.mem_row rfl, by rw [hs]; decide, hsaid⟩, fun f' hf' ha ↦ ?_⟩
  rw [reaches_stepsTo hm]
  rcases hm.mem hf' with ⟨f, hf, hstep⟩ | hr
  · rw [hstep.wording]
    exact hlive f hf (hstep.live.mp ha)
  · obtain rfl := Option.some.inj hr
    cases hs.symm.trans (Fact.live_none.mp ha)

theorem heeds_stepsTo (hm : db.StepsTo db' closed heard row)
    (hrow : ∀ r ∈ row, r.status = .active → ¬ p.Reaches env db r.wording)
    (hf : f.StepsTo closed heard f') : p.Heeds env db' none f' ↔ p.Heeds env db closed f := by
  rw [Heeds, Heeds, hf.live, hf.wording, named_stepsTo hm]
  refine and_congr_right' (or_congr_right (and_congr_right' ?_))
  constructor
  · intro h g hg hlive
    obtain ⟨g', hg', hstep⟩ := hm.exists_mem hg
    have hnot := h g' hg' (hstep.live.mpr hlive)
    rwa [named_stepsTo hm, hstep.wording] at hnot
  · intro h g' hg' hlive
    rw [named_stepsTo hm]
    rcases hm.mem hg' with ⟨g, hg, hstep⟩ | hr
    · rw [hstep.wording]
      exact h g hg (hstep.live.mp hlive)
    · exact fun hnamed ↦ hrow g' hr (Fact.live_none.mp hlive) (.inl hnamed)

theorem Echoes.stepsTo (hm : db.StepsTo db' closed heard row) (hf : f.StepsTo closed heard f')
    (hlive : f.Live closed) (h : p.Echoes env db heard f) : p.Echoes env db' none f' := by
  obtain ⟨hform, hvalue, hlists, hteaches⟩ := h
  have hform' : f'.memoryForm = f.memoryForm := congrArg Wording.memoryForm hf.wording
  have hvalue' : f'.value = f.value := congrArg Wording.value hf.wording
  refine ⟨hform'.trans_ne hform, by rw [hvalue', hvalue], hlists.stepsTo hf hlive, ?_⟩
  rwa [teaches_stepsTo hm, hf.wording]

/-- A row that does not say it, and that the lookup cannot find, leaves what is said elsewhere. -/
theorem Elsewhere.stepsTo (hm : db.StepsTo db' closed heard row)
    (h : p.Elsewhere env db closed heard) (hrow : ∀ r ∈ row, ¬ p.SaidBy r.wording ∧
      (r.status = .active → ¬ p.Reaches env db r.wording)) : p.Elsewhere env db' none none := by
  obtain ⟨hcreate, hunsaid, ⟨f, hf, hheeds⟩, hall⟩ := h
  have hreach (r) (hr : r ∈ row) := (hrow r hr).2
  refine ⟨hcreate, fun f' hf' hsaid ↦ ?_, ?_, fun f' hf' hheeds ↦ ?_⟩
  · rcases hm.mem hf' with ⟨f, hf, hstep⟩ | hr
    · exact hunsaid f hf ((said_stepsTo hstep).mp hsaid)
    · exact (hrow f' hr).1 hsaid.2
  · obtain ⟨f', hf', hstep⟩ := hm.exists_mem hf
    exact ⟨f', hf', (heeds_stepsTo hm hreach hstep).mpr hheeds⟩
  · rcases hm.mem hf' with ⟨f, hf, hstep⟩ | hr
    · have hheeds := (heeds_stepsTo hm hreach hstep).mp hheeds
      exact (hall f hf hheeds).stepsTo hm hstep hheeds.1
    · refine absurd (hheeds.2.imp_right And.left) ?_
      rw [← Reaches, reaches_stepsTo hm]
      exact hreach f' hr (Fact.live_none.mp hheeds.1)

/-- A new row with this wording, active or not, leaves an assertion settled: an active fact tells it,
or the row does; or it is dormant and the row is not active; or the row does not say it, and is not
found when it is active. -/
def LeftBy (env : Env) (db : Db) (closed : Option FactId) (p : Assertion) (w : Wording)
    (active : Prop) (eventId : EventId) : Prop :=
  p.Told db closed none ∨ (active ∧ p.SaidBy w ∧ p.eventId = eventId) ∨
    (¬ active ∧ p.Dormant env db closed) ∨
    (¬ p.SaidBy w ∧ (active → ¬ p.Reaches env db w))

instance (closed : Option FactId) (w : Wording) (active : Prop) [Decidable active]
    (eventId : EventId) : Decidable (p.LeftBy env db closed w active eventId) :=
  inferInstanceAs (Decidable (_ ∨ _ ∨ _ ∨ _))

/-- An active row that says it, from its own event, tells what no active fact said. -/
theorem Settled.of_row (hm : db.StepsTo db' closed heard (some r)) (h : p.Settled env db closed heard)
    (ha : r.status = .active) (hsaid : p.SaidBy r.wording) (hlisted : p.eventId ∈ r.sourceEventIds) :
    p.Told db' none none := by
  rcases h with h | ⟨-, hlive⟩ | ⟨-, hunsaid, -⟩
  · exact h.stepsTo hm
  · exact .of_row hm (fun f hf hl ↦ (hlive f hf hl).1) ha hsaid hlisted
  · refine .of_row hm (fun f hf hl hfsaid ↦ hunsaid f hf ⟨?_, hfsaid⟩) ha hsaid hlisted
    rw [hl.1]
    decide

/-- **What is settled stays settled.** -/
theorem Settled.stepsTo (hm : db.StepsTo db' closed none (some r)) (h : p.Settled env db closed none)
    {eventId : EventId} (hlisted : eventId ∈ r.sourceEventIds)
    (hleft : p.LeftBy env db closed r.wording (r.status = .active) eventId) :
    p.Settled env db' none none := by
  rcases hleft with htold | ⟨ha, hsaid, rfl⟩ | ⟨ha, hdormant⟩ | ⟨hunsaid, hreach⟩
  · exact .inl (htold.stepsTo hm)
  · exact .inl (h.of_row hm ha hsaid hlisted)
  · exact .inr (.inl (hdormant.stepsTo hm (by rintro _ ⟨⟩ hactive; exact absurd hactive ha)))
  · rcases h with h | h | h
    · exact .inl (h.stepsTo hm)
    · exact .inr (.inl (h.stepsTo hm (by rintro _ ⟨⟩ hactive; exact ⟨hunsaid, hreach hactive⟩)))
    · exact .inr (.inr (h.stepsTo hm (by rintro _ ⟨⟩; exact ⟨hunsaid, hreach⟩)))

/-- The same, for a step that adds no row. -/
theorem Settled.stepsTo_none (hm : db.StepsTo db' closed heard none)
    (h : p.Settled env db closed heard) : p.Settled env db' none none := by
  rcases h with h | h | h
  · exact .inl (h.stepsTo hm)
  · exact .inr (.inl (h.stepsTo hm (by rintro _ ⟨⟩)))
  · exact .inr (.inr (h.stepsTo hm (by rintro _ ⟨⟩)))

end Assertion

end Haki
