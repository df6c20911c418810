import Haki.Consolidator.RaceLocks
import Haki.Sample

/-!
# What an erasure leaves when consolidations run beside it

Row locks and the foreign key of the chunks are enough for the chunks
(`Race.Inv.chunk_notMem_erased`).

A fact has no foreign key to its events, and the erasure takes no subject write
lock.  So `erasure_wins` needs that a consolidation that has read events the
erasure deletes does not write facts of the subject after the erasure has begun
to delete them.
-/

namespace Haki

open Data Control

/-! ## What rows are derived from -/

/-- The facts and conflict sets are of subjects that meet `p`. -/
def Rows.Within (rows : Rows) (p : Scope → Prop) : Prop :=
  (∀ f ∈ rows.facts, p f.scope) ∧ ∀ s ∈ rows.conflictSets, p s.scope

instance (rows : Rows) (p : Scope → Prop) [DecidablePred p] : Decidable (rows.Within p) :=
  inferInstanceAs (Decidable ((∀ f ∈ rows.facts, p f.scope) ∧ ∀ s ∈ rows.conflictSets, p s.scope))

theorem Rows.within_empty (p : Scope → Prop) : Rows.empty.Within p :=
  ⟨fun _ h ↦ absurd h List.not_mem_nil, fun _ h ↦ absurd h List.not_mem_nil⟩

/-- The fact is derived from no event in the list.  Its id carries the event it was born from. -/
def Fact.Spared (erased : List EventId) (f : Fact) : Prop :=
  (∀ e ∈ f.sourceEventIds, e ∉ erased) ∧ f.id.event ∉ erased

/-- No member of the set was born from an event in the list. -/
def ConflictSet.Spared (erased : List EventId) (s : ConflictSet) : Prop :=
  ∀ id ∈ s.factIds, id.event ∉ erased

/-- The facts and conflict sets of the subject are derived from no event in the list. -/
structure Rows.Spared (rows : Rows) (scope : Scope) (erased : List EventId) : Prop where
  facts : ∀ f ∈ rows.facts, f.scope = scope → f.Spared erased
  conflictSets : ∀ s ∈ rows.conflictSets, s.scope = scope → s.Spared erased

namespace Rows.Spared

variable {rows rows' : Rows} {scope : Scope} {erased : List EventId}

/-- Rows of other subjects. -/
theorem of_within (h : rows.Within (· ≠ scope)) : rows.Spared scope erased :=
  ⟨fun f hf hscope ↦ absurd hscope (h.1 f hf), fun s hs hscope ↦ absurd hscope (h.2 s hs)⟩

theorem merge (h : rows.Spared scope erased) (h' : rows'.Spared scope erased) :
    (rows.merge rows').Spared scope erased where
  facts f hf := by
    rcases Table.mem_merge hf with hf | ⟨hf, -⟩
    · exact h'.facts f hf
    · exact h.facts f hf
  conflictSets s hs := by
    rcases Table.mem_merge hs with hs | ⟨hs, -⟩
    · exact h'.conflictSets s hs
    · exact h.conflictSets s hs

end Rows.Spared

section

variable {event : Event} {scope : Scope} {erased : List EventId}

/-- A fact an applied candidate writes for an event that is not erased. -/
theorem FactWrite.spared {f : Fact} {old : Option Fact} (h : FactWrite event old f)
    (hold : ∀ g ∈ old, g.id = f.id ∧ (g.scope = event.scope → g.Spared erased))
    (hevent : event.id ∉ erased) : f.Spared erased := by
  obtain ⟨-, hwrite⟩ := h
  cases old with
  | none =>
    rw [Fact.Spared, hwrite.1, hwrite.2]
    exact ⟨fun e he ↦ List.mem_singleton.mp he ▸ hevent, hevent⟩
  | some old =>
    obtain ⟨hscope, hsources⟩ := hwrite
    obtain ⟨hid, hspared⟩ := hold old rfl
    obtain ⟨hborn, hbirth⟩ := hspared hscope
    refine ⟨fun e he ↦ ?_, hid ▸ hbirth⟩
    rcases hsources with hsources | hsources
    · exact hborn e (hsources ▸ he)
    · rw [hsources] at he
      rcases List.mem_append.mp he with he | he
      · exact hborn e he
      · exact List.mem_singleton.mp he ▸ hevent

/-- The members of a conflict set an applied candidate writes. -/
theorem SetWrite.mem {conflict : ConflictSet} {seen : List Fact} {old : Option ConflictSet}
    {p : FactId → Prop} (h : SetWrite event seen old conflict)
    (hold : ∀ s ∈ old, s.scope = event.scope → ∀ id ∈ s.factIds, p id)
    (hseen : ∀ f ∈ seen, f.scope = event.scope → p f.id) : ∀ id ∈ conflict.factIds, p id := by
  intro id hid
  rcases h.2 id hid with ⟨s, hs, hscope, hmem⟩ | ⟨f, hf, rfl, hscope⟩
  · exact hold s hs hscope id hmem
  · exact hseen f hf hscope

end

/-- The erasure takes the fact, and the event it was born from. -/
def Erasure.Takes (x : Erasure) (id : FactId) : Prop :=
  id ∈ x.facts.targets ∧ id.event ∈ x.events.targets

instance (x : Erasure) (id : FactId) : Decidable (x.Takes id) :=
  inferInstanceAs (Decidable (_ ∧ _))

/-- With the event it was born from, the erasure takes the fact. -/
def Erasure.Catches (x : Erasure) (id : FactId) : Prop :=
  id.event ∈ x.events.targets → id ∈ x.facts.targets

namespace Race

variable {env : Env} {r r' : Race} {s s' : Consolidation} {x x' : Erasure} {w : Work}

/-- Of the subject, no event was read that the erasure takes. -/
def Late (x : Erasure) (w : Work) : Prop :=
  (∀ e ∈ w.early, e.scope ≠ x.scope) ∧
    ∀ e ∈ w.meanwhile, e.scope = x.scope → e.id ∉ x.events.targets

instance (x : Erasure) (w : Work) : Decidable (Late x w) :=
  inferInstanceAs (Decidable ((∀ e ∈ w.early, e.scope ≠ x.scope) ∧
    ∀ e ∈ w.meanwhile, e.scope = x.scope → e.id ∉ x.events.targets))

/-- What a transaction has written belongs to what it has read. -/
structure Follows (x : Erasure) (w : Work) : Prop where
  within : w.rows.Within fun scope ↦ ∃ e ∈ w.read, e.scope = scope
  read : ∀ e ∈ w.read, e ∈ w.early ∨
    (x.events.Begun ∧ (e ∈ w.meanwhile ∨ e.id ∉ x.events.targets))
  facts : x.events.Begun → Late x w → ∀ f ∈ w.rows.facts, f.scope = x.scope →
    f.Spared x.events.targets
  conflictSets : x.events.Begun → Late x w → ∀ t ∈ w.rows.conflictSets, t.scope = x.scope →
    ∀ id ∈ t.factIds, x.Catches id

/-- What a job has loaded and written belongs to the events it has read. -/
structure Traced (x : Erasure) (s : Consolidation) : Prop where
  work : Follows x s.work
  saved : Follows x s.saved
  events : ∀ e ∈ s.events, e ∈ s.work.read
  seen : ∀ f ∈ s.seen, ∃ e ∈ s.events, e.scope = f.scope
  caught : x.events.Begun → Late x s.work → ∀ f ∈ s.seen, f.scope = x.scope → x.Catches f.id

/-- The facts and conflict sets of the subject are taken by the erasure while it is open, or not
derived from erased events. -/
structure Residue (r : Race) : Prop where
  facts : r.erasure.committed = false → r.erasure.facts.Begun → ∀ f ∈ r.rows.facts,
    f.scope = r.erasure.scope → f.id ∈ r.erasure.facts.targets ∨
      (r.erasure.events.Begun ∧ f.Spared r.erasure.events.targets)
  conflictSets : r.erasure.committed = false → r.erasure.conflictSets.Begun →
    ∀ t ∈ r.rows.conflictSets, t.scope = r.erasure.scope → t.id ∈ r.erasure.conflictSets.targets ∨
      (r.erasure.events.Begun ∧ t.Spared r.erasure.events.targets)
  spared : r.erasure.committed = true → r.rows.Spared r.erasure.scope r.erasure.events.targets
  traced : ∀ s ∈ r.consolidations, Traced r.erasure s

theorem follows_empty (x : Erasure) : Follows x .empty where
  within := Rows.within_empty _
  read _ h := absurd h List.not_mem_nil
  facts _ _ _ h := absurd h List.not_mem_nil
  conflictSets _ _ _ h := absurd h List.not_mem_nil

theorem traced_new (x : Erasure) (session : SessionId) : Traced x (.new session) where
  work := follows_empty x
  saved := follows_empty x
  events _ h := absurd h List.not_mem_nil
  seen _ h := absurd h List.not_mem_nil
  caught _ _ _ h := absurd h List.not_mem_nil

theorem residue_start (rows : Rows) (scope : Scope) : (start rows scope).Residue where
  facts _ := False.elim
  conflictSets _ := False.elim
  spared := Bool.noConfusion
  traced _ h := absurd h List.not_mem_nil

/-- Before the erasure deletes events, a transaction that has read no event of the subject has
written nothing of it. -/
theorem Follows.within_ne (h : Follows x w) (hahead : ¬ x.events.Begun)
    (hearly : ∀ e ∈ w.early, e.scope ≠ x.scope) : w.rows.Within (· ≠ x.scope) := by
  have hscope {scope : Scope} (hread : ∃ e ∈ w.read, e.scope = scope) : scope ≠ x.scope := by
    obtain ⟨e, he, rfl⟩ := hread
    exact hearly e ((h.read e he).resolve_right fun hread ↦ hahead hread.1)
  exact ⟨fun f hf ↦ hscope (h.within.1 f hf), fun t ht ↦ hscope (h.within.2 t ht)⟩

/-- A statement of the erasure up to the deletion of the events. -/
theorem Follows.of_ahead (h : Follows x w) (hahead : ¬ x.events.Begun) (hscope : x'.scope = x.scope) :
    Follows x' w where
  within := h.within
  read e he := .inl ((h.read e he).resolve_right fun hread ↦ hahead hread.1)
  facts _ hlate f hf heq :=
    absurd (heq.trans hscope) ((h.within_ne hahead (hscope ▸ hlate.1)).1 f hf)
  conflictSets _ hlate t ht heq :=
    absurd (heq.trans hscope) ((h.within_ne hahead (hscope ▸ hlate.1)).2 t ht)

theorem Traced.of_ahead (h : Traced x s) (hahead : ¬ x.events.Begun) (hscope : x'.scope = x.scope) :
    Traced x' s where
  work := h.work.of_ahead hahead hscope
  saved := h.saved.of_ahead hahead hscope
  events := h.events
  seen := h.seen
  caught _ hlate f hf heq := by
    obtain ⟨e, he, hef⟩ := h.seen f hf
    have hearly := (h.work.read e (h.events e he)).resolve_right fun hread ↦ hahead hread.1
    exact absurd (hef.trans heq) (hlate.1 e hearly)

/-- The events are deleted, and the erasure commits. -/
theorem Traced.events_done (h : Traced x s) {keys : List EventId} (hkeys : x.events.targets = keys)
    (hbegun : x.events.Begun) (committed : Bool) :
    Traced { x with events := .done keys, committed := committed } s := by
  subst hkeys
  have hfollows {w : Work} (h : Follows x w) :
      Follows { x with events := .done x.events.targets, committed := committed } w :=
    ⟨h.within, fun e he ↦ (h.read e he).imp_right fun hread ↦ ⟨trivial, hread.2⟩,
      fun _ ↦ h.facts hbegun, fun _ ↦ h.conflictSets hbegun⟩
  exact ⟨hfollows h.work, hfollows h.saved, h.events, h.seen, fun _ ↦ h.caught hbegun⟩

/-! ## Turns -/

/-- A transaction that changes neither facts nor conflict sets. -/
theorem Follows.of_eq {w' : Work} (h : Follows x w) (hread : w'.read = w.read)
    (hearly : w'.early = w.early) (hmeanwhile : w'.meanwhile = w.meanwhile)
    (hfacts : w'.rows.facts = w.rows.facts)
    (hsets : w'.rows.conflictSets = w.rows.conflictSets) : Follows x w' := by
  have hlate (hlate : Late x w') : Late x w :=
    ⟨hearly ▸ hlate.1, hmeanwhile ▸ hlate.2⟩
  constructor
  case within =>
    rw [Rows.Within, hfacts, hsets, hread]
    exact h.within
  case read =>
    rw [hread, hearly, hmeanwhile]
    exact h.read
  case facts =>
    rw [hfacts]
    exact fun hbegun hl ↦ h.facts hbegun (hlate hl)
  case conflictSets =>
    rw [hsets]
    exact fun hbegun hl ↦ h.conflictSets hbegun (hlate hl)

/-- A statement on the events or on the chunks of a job. -/
theorem Traced.of_eq (h : Traced x s) (hevents : s'.events = s.events) (hseen : s'.seen = s.seen)
    (hsaved : s'.saved = s.saved) (hread : s'.work.read = s.work.read)
    (hearly : s'.work.early = s.work.early) (hmeanwhile : s'.work.meanwhile = s.work.meanwhile)
    (hfacts : s'.work.rows.facts = s.work.rows.facts)
    (hsets : s'.work.rows.conflictSets = s.work.rows.conflictSets) : Traced x s' where
  work := h.work.of_eq hread hearly hmeanwhile hfacts hsets
  saved := hsaved ▸ h.saved
  events := hevents ▸ hread ▸ h.events
  seen := hseen ▸ hevents ▸ h.seen
  caught hbegun hlate := by
    rw [hseen]
    exact h.caught hbegun ⟨hearly ▸ hlate.1, hmeanwhile ▸ hlate.2⟩

/-- What is there after the erasure was committed is not erased. -/
theorem notMem_targets_of_view (hr : r.Inv) (hs : s ∈ r.consolidations)
    (hcommitted : r.erasure.committed = true) {e : Event} (he : e ∈ (r.view s).events) :
    e.id ∉ r.erasure.events.targets := by
  rw [← Deletion.deleted_of_done (hr.ordered.committed hcommitted)]
  rcases Table.mem_merge he with he | ⟨he, -⟩
  · exact ((hr.holding s hs).work.events e he).2
  · exact hr.gone hcommitted e he

theorem traced_read (hr : r.Inv) (hs : s ∈ r.consolidations) (h : Traced r.erasure s)
    {eventIds : List EventId} {only : Option (List EventId)}
    (hturn : r.read s eventIds only = .ok s') : Traced r.erasure s' := by
  obtain ⟨events, hevents, rfl⟩ := read_eq_ok hturn
  have hearly {e : Event} (he : e ∈ s.work.early) :
      e ∈ if r.erasure.events.Begun then s.work.early else s.work.early ++ events := by
    split
    · exact he
    · exact List.mem_append_left _ he
  have hmeanwhile {e : Event} (he : e ∈ s.work.meanwhile) :
      e ∈ if r.erasure.events.Begun ∧ r.erasure.committed = false then s.work.meanwhile ++ events
        else s.work.meanwhile := by
    split
    · exact List.mem_append_left _ he
    · exact he
  have hlate {w : Work} (he : w.early = if r.erasure.events.Begun then s.work.early
        else s.work.early ++ events)
      (hm : w.meanwhile = if r.erasure.events.Begun ∧ r.erasure.committed = false then
        s.work.meanwhile ++ events else s.work.meanwhile)
      (hl : Late r.erasure w) : Late r.erasure s.work :=
    ⟨fun e h ↦ hl.1 e (he ▸ hearly h), fun e h ↦ hl.2 e (hm ▸ hmeanwhile h)⟩
  constructor
  case work =>
    constructor
    case within =>
      have hread {scope : Scope} (hscope : ∃ e ∈ s.work.read, e.scope = scope) :
          ∃ e ∈ s.work.read ++ events, e.scope = scope := by
        obtain ⟨e, he, heq⟩ := hscope
        exact ⟨e, List.mem_append_left _ he, heq⟩
      exact ⟨fun f hf ↦ hread (h.work.within.1 f hf), fun t ht ↦ hread (h.work.within.2 t ht)⟩
    case read =>
      intro e he
      rcases List.mem_append.mp he with he | he
      · exact (h.work.read e he).imp hearly fun hread ↦ ⟨hread.1, hread.2.imp_left hmeanwhile⟩
      · by_cases hbegun : r.erasure.events.Begun
        · refine .inr ⟨hbegun, ?_⟩
          cases hcommitted : r.erasure.committed with
          | true => exact .inr (notMem_targets_of_view hr hs hcommitted (hevents e he))
          | false =>
            dsimp only
            rw [if_pos ⟨hbegun, rfl⟩]
            exact .inl (List.mem_append_right _ he)
        · dsimp only
          rw [if_neg hbegun]
          exact .inl (List.mem_append_right _ he)
    case facts => exact fun hbegun hl ↦ h.work.facts hbegun (hlate rfl rfl hl)
    case conflictSets => exact fun hbegun hl ↦ h.work.conflictSets hbegun (hlate rfl rfl hl)
  case saved => exact h.work
  case events => exact fun e he ↦ List.mem_append_right _ he
  case seen => exact fun f hf ↦ absurd hf List.not_mem_nil
  case caught => exact fun _ _ f hf ↦ absurd hf List.not_mem_nil

/-- The event of a written row of the subject is not erased. -/
theorem Traced.event_notMem (h : Traced x s) {e : Event} (he : e ∈ s.events)
    (hlate : Late x s.work) (hscope : e.scope = x.scope) : e.id ∉ x.events.targets := by
  rcases h.work.read e (h.events e he) with hearly | ⟨-, hmeanwhile | hid⟩
  · exact absurd hscope (hlate.1 e hearly)
  · exact hlate.2 e hmeanwhile hscope
  · exact hid

section

variable (hr : r.Inv) (hres : r.Residue) (h : Traced r.erasure s)
  (hbegun : r.erasure.events.Begun) (hlate : Late r.erasure s.work)

include hr hres h hbegun hlate

/-- The facts of the subject that a consolidation sees are taken by the open erasure, or not derived
from erased events. -/
theorem view_facts {f : Fact} (hf : f ∈ (r.view s).facts) (hscope : f.scope = r.erasure.scope) :
    r.Doomed Erasure.facts f.id ∨ f.Spared r.erasure.events.targets := by
  rcases Table.mem_merge hf with hf | ⟨hf, -⟩
  · exact .inr (h.work.facts hbegun hlate f hf hscope)
  · cases hcommitted : r.erasure.committed with
    | true => exact .inr ((hres.spared hcommitted).facts f hf hscope)
    | false =>
      have hdone := (hr.ordered.begun hbegun).1
      refine (hres.facts hcommitted (Deletion.begun_of_done hdone) f hf hscope).imp
        (fun htarget ↦ ⟨hcommitted, ?_⟩) And.right
      rw [Deletion.deleted_of_done hdone]
      exact htarget

/-- So are the conflict sets. -/
theorem view_conflictSets {t : ConflictSet} (ht : t ∈ (r.view s).conflictSets)
    (hscope : t.scope = r.erasure.scope) :
    r.Doomed Erasure.conflictSets t.id ∨ ∀ id ∈ t.factIds, r.erasure.Catches id := by
  have hcatches (hspared : t.Spared r.erasure.events.targets) :
      ∀ id ∈ t.factIds, r.erasure.Catches id := fun id hid hevent ↦ absurd hevent (hspared id hid)
  rcases Table.mem_merge ht with ht | ⟨ht, -⟩
  · exact .inr (h.work.conflictSets hbegun hlate t ht hscope)
  · cases hcommitted : r.erasure.committed with
    | true => exact .inr (hcatches ((hres.spared hcommitted).conflictSets t ht hscope))
    | false =>
      have hdone := (hr.ordered.begun hbegun).2
      refine (hres.conflictSets hcommitted (Deletion.begun_of_done hdone) t ht hscope).imp
        (fun htarget ↦ ⟨hcommitted, ?_⟩) fun hspared ↦ hcatches hspared.2
      rw [Deletion.deleted_of_done hdone]
      exact htarget

end

section

variable (hr : r.Inv) (hres : r.Residue) (h : Traced r.erasure s)

include hr hres h

theorem traced_look {event : EventId} (hturn : r.look s event = .ok s') : Traced r.erasure s' := by
  obtain ⟨e, he, rfl⟩ := look_eq_ok hturn
  refine ⟨h.work, h.saved, h.events, fun f hf ↦ ?_, fun hbegun hlate f hf hscope ↦ ?_⟩
  · rcases List.mem_append.mp hf with hf | hf
    · exact h.seen f hf
    · exact ⟨e, he, (of_decide_eq_true (List.mem_filter.mp hf).2).symm⟩
  · rcases List.mem_append.mp hf with hf | hf
    · exact h.caught hbegun hlate f hf hscope
    · rcases view_facts hr hres h hbegun hlate (List.mem_filter.mp hf).1 hscope with hdoomed | hspared
      · rw [Doomed, Deletion.deleted_of_done (hr.ordered.begun hbegun).1] at hdoomed
        exact fun _ ↦ hdoomed.2
      · exact fun hevent ↦ absurd hevent hspared.2

theorem traced_writeFact {event : EventId} {fact : Fact}
    (hturn : r.writeFact s event fact = .ok s') : Traced r.erasure s' := by
  obtain ⟨e, he, hwrite, hfree, rfl⟩ := writeFact_eq_ok hturn
  have hspared (hbegun : r.erasure.events.Begun) (hlate : Late r.erasure s.work)
      (hscope : fact.scope = r.erasure.scope) : fact.Spared r.erasure.events.targets := by
    have hevent : e.scope = r.erasure.scope := hwrite.1.symm.trans hscope
    refine hwrite.spared (fun g hg ↦ ?_) (h.event_notMem he hlate hevent)
    have hid : g.id = fact.id := Table.key_of_get? hg
    refine ⟨hid, fun hgscope ↦ ?_⟩
    refine (view_facts hr hres h hbegun hlate (Table.mem_of_get? hg)
      (hgscope.trans hevent)).resolve_left fun hdoomed ↦ hfree ?_
    exact hid ▸ hdoomed
  constructor
  case work =>
    refine ⟨⟨fun f hf ↦ ?_, h.work.within.2⟩, h.work.read, fun hbegun hlate f hf hscope ↦ ?_,
      h.work.conflictSets⟩
    · rcases Table.mem_of_mem_upsert hf with hf | rfl
      · exact h.work.within.1 f hf
      · exact ⟨e, h.events e he, hwrite.1.symm⟩
    · rcases Table.mem_of_mem_upsert hf with hf | rfl
      · exact h.work.facts hbegun hlate f hf hscope
      · exact hspared hbegun hlate hscope
  case saved => exact h.saved
  case events => exact h.events
  case seen =>
    intro f hf
    rcases List.mem_append.mp hf with hf | hf
    · exact h.seen f hf
    · obtain rfl := List.mem_singleton.mp hf
      exact ⟨e, he, hwrite.1.symm⟩
  case caught =>
    intro hbegun hlate f hf hscope
    rcases List.mem_append.mp hf with hf | hf
    · exact h.caught hbegun hlate f hf hscope
    · obtain rfl := List.mem_singleton.mp hf
      exact fun hevent ↦ absurd hevent (hspared hbegun hlate hscope).2

theorem traced_writeConflictSet {event : EventId} {conflict : ConflictSet}
    (hturn : r.writeConflictSet s event conflict = .ok s') : Traced r.erasure s' := by
  obtain ⟨e, he, hwrite, hfree, rfl⟩ := writeConflictSet_eq_ok hturn
  refine ⟨⟨⟨h.work.within.1, fun t ht ↦ ?_⟩, h.work.read, h.work.facts,
    fun hbegun hlate t ht hscope ↦ ?_⟩, h.saved, h.events, h.seen, h.caught⟩
  · rcases Table.mem_of_mem_upsert ht with ht | rfl
    · exact h.work.within.2 t ht
    · exact ⟨e, h.events e he, hwrite.1.symm⟩
  · rcases Table.mem_of_mem_upsert ht with ht | heq
    · exact h.work.conflictSets hbegun hlate t ht hscope
    · rw [heq] at hscope ⊢
      have hevent : e.scope = r.erasure.scope := hwrite.1.symm.trans hscope
      refine hwrite.mem (fun old hold holdscope ↦ ?_)
        fun f hf hfscope ↦ h.caught hbegun hlate f hf (hfscope.trans hevent)
      have hid : old.id = conflict.id := Table.key_of_get? hold
      refine (view_conflictSets hr hres h hbegun hlate (Table.mem_of_get? hold)
        (holdscope.trans hevent)).resolve_left fun hdoomed ↦ hfree ?_
      exact hid ▸ hdoomed

end

theorem traced_turn (hr : r.Inv) (hres : r.Residue) (hs : s ∈ r.consolidations) {turn : JobTurn}
    (hturn : r.turn env s turn = .ok s') : Traced r.erasure s' := by
  have h := hres.traced s hs
  cases turn with
  | read eventIds only => exact traced_read hr hs h hturn
  | embed =>
    obtain ⟨_, _, rfl⟩ := embed_eq_ok hturn
    exact h.of_eq rfl rfl rfl rfl rfl rfl rfl rfl
  | chunk =>
    obtain ⟨_, _, _, rfl⟩ := chunk_eq_ok hturn
    exact h.of_eq rfl rfl rfl rfl rfl rfl rfl rfl
  | lock =>
    obtain ⟨_, _, rfl⟩ := lock_eq_ok hturn
    exact h.of_eq rfl rfl rfl rfl rfl rfl rfl rfl
  | look event => exact traced_look hr hres h hturn
  | writeFact event fact => exact traced_writeFact hr hres h hturn
  | writeConflictSet event conflict => exact traced_writeConflictSet hr hres h hturn
  | index event text =>
    obtain ⟨_, _, rfl⟩ := index_eq_ok hturn
    exact h.of_eq rfl rfl rfl rfl rfl rfl rfl rfl
  | finish =>
    obtain rfl := finish_eq_ok hturn
    exact ⟨h.work, h.saved, fun e he ↦ absurd he List.not_mem_nil,
      fun f hf ↦ absurd hf List.not_mem_nil, fun _ _ f hf ↦ absurd hf List.not_mem_nil⟩
  | fail =>
    obtain rfl := fail_eq_ok hturn
    exact ⟨h.saved, h.saved, fun e he ↦ absurd he List.not_mem_nil,
      fun f hf ↦ absurd hf List.not_mem_nil, fun _ _ f hf ↦ absurd hf List.not_mem_nil⟩
  | commit => cases hturn
  | crash => cases hturn

/-! ## Steps and runs -/

/-- Of the subject, the transaction has read no event that the erasure takes, and no conflict set it
has written has a member that the erasure takes. -/
def Clear (x : Erasure) (w : Work) : Prop :=
  Late x w ∧ ∀ t ∈ w.rows.conflictSets, t.scope = x.scope → ∀ id ∈ t.factIds, ¬ x.Takes id

instance (x : Erasure) (w : Work) : Decidable (Clear x w) :=
  inferInstanceAs (Decidable (_ ∧ ∀ t ∈ w.rows.conflictSets, t.scope = x.scope →
    ∀ id ∈ t.factIds, ¬ x.Takes id))

/-- A consolidation that commits after the erasure has begun to delete facts is clear of what the
erasure takes, or has written no fact and no conflict set of the subject. -/
def Apart (r : Race) : RaceAction → Prop
  | .go session .commit => ∀ s ∈ r.consolidations, s.id = session → r.erasure.facts.Begun →
      Clear r.erasure s.work ∨ s.work.rows.Within (· ≠ r.erasure.scope)
  | _ => True

instance (r : Race) : ∀ action, Decidable (r.Apart action)
  | .go session .commit => inferInstanceAs (Decidable (∀ s ∈ r.consolidations, s.id = session →
      r.erasure.facts.Begun → Clear r.erasure s.work ∨ s.work.rows.Within (· ≠ r.erasure.scope)))
  | .go _ (.read _ _) | .go _ .embed | .go _ .chunk | .go _ .lock | .go _ (.look _)
  | .go _ (.writeFact _ _) | .go _ (.writeConflictSet _ _) | .go _ (.index _ _) | .go _ .finish
  | .go _ .fail | .go _ .crash | .capture _ | .open _ | .erase _ => isTrue trivial

/-- A change of the sessions only. -/
theorem Residue.of_consolidations (h : r.Residue) {consolidations : Table Consolidation}
    (htraced : ∀ s ∈ consolidations, Traced r.erasure s) :
    ({ r with consolidations := consolidations } : Race).Residue :=
  ⟨h.facts, h.conflictSets, h.spared, htraced⟩

/-- What a transaction commits is of other subjects, or not derived from erased events. -/
theorem Follows.commit (h : Follows x w) (hapart : Clear x w ∨ w.rows.Within (· ≠ x.scope)) :
    w.rows.Within (· ≠ x.scope) ∨
      (x.events.Begun ∧ w.rows.Spared x.scope x.events.targets) := by
  rcases hapart with ⟨hlate, hsets⟩ | hwithin
  · by_cases hbegun : x.events.Begun
    · refine .inr ⟨hbegun, h.facts hbegun hlate, fun t ht hscope id hid hevent ↦ ?_⟩
      exact hsets t ht hscope id hid
        ⟨h.conflictSets hbegun hlate t ht hscope id hid hevent, hevent⟩
    · exact .inl (h.within_ne hbegun hlate.1)
  · exact .inl hwithin

theorem Residue.commit (h : r.Residue) (hr : r.Inv) (hs : s ∈ r.consolidations)
    (hapart : r.Apart (.go s.id .commit)) : (r.commit s).Residue := by
  have hwork (hbegun : r.erasure.facts.Begun) :=
    (h.traced s hs).work.commit (hapart s hs rfl hbegun)
  constructor
  case facts =>
    intro hcommitted hbegun f hf hscope
    rcases Table.mem_merge hf with hf | ⟨hf, -⟩
    · rcases hwork hbegun with hwithin | ⟨hevents, hspared⟩
      · exact absurd hscope (hwithin.1 f hf)
      · exact .inr ⟨hevents, hspared.facts f hf hscope⟩
    · exact h.facts hcommitted hbegun f hf hscope
  case conflictSets =>
    intro hcommitted hbegun t ht hscope
    have hdone := hr.ordered.conflictSets hbegun
    rcases Table.mem_merge ht with ht | ⟨ht, -⟩
    · rcases hwork (Deletion.begun_of_done hdone) with hwithin | ⟨hevents, hspared⟩
      · exact absurd hscope (hwithin.2 t ht)
      · exact .inr ⟨hevents, hspared.conflictSets t ht hscope⟩
    · exact h.conflictSets hcommitted hbegun t ht hscope
  case spared =>
    intro hcommitted
    refine (h.spared hcommitted).merge ?_
    have hdone := (hr.ordered.done hcommitted).1
    rcases hwork (Deletion.begun_of_done hdone) with hwithin | ⟨-, hspared⟩
    · exact .of_within hwithin
    · exact hspared
  case traced => exact fun t ht ↦ h.traced t (Table.mem_filter.mp ht).1

/-- What the erasure has taken is gone once it is committed. -/
theorem Residue.survivors (h : r.Residue) (hr : r.Inv) (hopen : r.erasure.committed = false)
    (hbegun : r.erasure.events.Begun) :
    r.survivors.Spared r.erasure.scope r.erasure.events.targets := by
  obtain ⟨hfacts, hsets⟩ := hr.ordered.begun hbegun
  constructor
  · intro f hf hscope
    obtain ⟨f₀, hf₀, rfl⟩ := (Table.mem_modify fun f ↦ f.unlinkChunks_id _).mp hf
    obtain ⟨hf₀, hid⟩ := Table.mem_filter.mp hf₀
    rw [Fact.unlinkChunks_scope] at hscope
    rw [Fact.Spared, Fact.unlinkChunks_sourceEventIds, Fact.unlinkChunks_id]
    rw [Deletion.deleted_of_done hfacts, decide_eq_true_iff] at hid
    exact ((h.facts hopen (Deletion.begun_of_done hfacts) f₀ hf₀ hscope).resolve_left hid).2
  · intro t ht hscope
    obtain ⟨ht, hid⟩ := Table.mem_filter.mp ht
    rw [Deletion.deleted_of_done hsets, decide_eq_true_iff] at hid
    exact ((h.conflictSets hopen (Deletion.begun_of_done hsets) t ht hscope).resolve_left hid).2

theorem Residue.erase (h : r.Residue) (hr : r.Inv) (herases : r.Erases r') : r'.Residue := by
  have hopen := herases.isOpen hr.ordered
  have hnot {P : Prop} (hcommitted : r.erasure.committed = true) : P := by
    rw [hopen] at hcommitted
    cases hcommitted
  have hahead (hnext : ¬ ((∃ keys, r.erasure.facts = .done keys) ∧
      ∃ keys, r.erasure.conflictSets = .done keys)) : ¬ r.erasure.events.Begun :=
    fun hbegun ↦ hnext (hr.ordered.begun hbegun)
  cases herases with
  | deleteFacts hfacts =>
    have hnone : ¬ r.erasure.events.Begun := hahead fun ⟨⟨_, hdone⟩, _⟩ ↦ by
      cases hfacts.symm.trans hdone
    refine ⟨fun _ _ f hf hscope ↦ .inl ?_, h.conflictSets, hnot,
      fun s hs ↦ (h.traced s hs).of_ahead hnone rfl⟩
    exact List.mem_map_of_mem (List.mem_filter.mpr ⟨hf, decide_eq_true hscope⟩)
  | factsDeleted keys hfacts =>
    have hnone : ¬ r.erasure.events.Begun := hahead fun ⟨⟨_, hdone⟩, _⟩ ↦ by
      cases hfacts.symm.trans hdone
    refine ⟨fun _ _ f hf hscope ↦ ?_, h.conflictSets, hnot,
      fun s hs ↦ (h.traced s hs).of_ahead hnone rfl⟩
    have htarget := h.facts hopen (Deletion.begun_of_waiting hfacts) f hf hscope
    rw [hfacts] at htarget
    exact htarget
  | deleteConflictSets keys hfacts hsets =>
    have hnone : ¬ r.erasure.events.Begun := hahead fun ⟨_, _, hdone⟩ ↦ by
      cases hsets.symm.trans hdone
    refine ⟨h.facts, fun _ _ t ht hscope ↦ .inl ?_, hnot,
      fun s hs ↦ (h.traced s hs).of_ahead hnone rfl⟩
    exact List.mem_map_of_mem (List.mem_filter.mpr ⟨ht, decide_eq_true hscope⟩)
  | conflictSetsDeleted keys hsets =>
    have hnone : ¬ r.erasure.events.Begun := hahead fun ⟨_, _, hdone⟩ ↦ by
      cases hsets.symm.trans hdone
    refine ⟨h.facts, fun _ _ t ht hscope ↦ ?_, hnot,
      fun s hs ↦ (h.traced s hs).of_ahead hnone rfl⟩
    have htarget := h.conflictSets hopen (Deletion.begun_of_waiting hsets) t ht hscope
    rw [hsets] at htarget
    exact htarget
  | deleteEvents keys hsets hevents =>
    have hnone : ¬ r.erasure.events.Begun := by
      rw [hevents]
      exact id
    refine ⟨fun _ hbegun f hf hscope ↦ .inl ?_, fun _ hbegun t ht hscope ↦ .inl ?_, hnot,
      fun s hs ↦ (h.traced s hs).of_ahead hnone rfl⟩
    · exact (h.facts hopen hbegun f hf hscope).resolve_right fun hspared ↦ hnone hspared.1
    · exact (h.conflictSets hopen hbegun t ht hscope).resolve_right fun hspared ↦ hnone hspared.1
  | eventsDeleted keys hevents =>
    have htargets : r.erasure.events.targets = keys := by
      rw [hevents]
      rfl
    refine ⟨fun _ hbegun f hf hscope ↦ ?_, fun _ hbegun t ht hscope ↦ ?_, hnot,
      fun s hs ↦ (h.traced s hs).events_done htargets (Deletion.begun_of_waiting hevents) _⟩
    · exact (h.facts hopen hbegun f hf hscope).imp_right fun hspared ↦ ⟨trivial, htargets ▸ hspared.2⟩
    · exact (h.conflictSets hopen hbegun t ht hscope).imp_right fun hspared ↦
        ⟨trivial, htargets ▸ hspared.2⟩
  | commit keys hevents =>
    have hbegun := Deletion.begun_of_done ⟨keys, hevents⟩
    refine ⟨Bool.noConfusion, Bool.noConfusion, fun _ ↦ h.survivors hr hopen hbegun,
      fun s hs ↦ ?_⟩
    have htargets : r.erasure.events.targets = keys := by
      rw [hevents]
      rfl
    have htraced := (h.traced s hs).events_done htargets hbegun true
    rw [← hevents] at htraced
    exact htraced

theorem Residue.step (h : r.Residue) (hr : r.Inv) {action : RaceAction} (hapart : r.Apart action)
    (hstep : r.step env action = .ok r') : r'.Residue := by
  rcases step_cases hstep with ⟨event, -, rfl⟩ | ⟨session, rfl⟩ | ⟨s, hs, turn, rfl, hgo⟩ | herases
  · exact ⟨h.facts, h.conflictSets, fun hcommitted ↦ ⟨(h.spared hcommitted).facts,
      (h.spared hcommitted).conflictSets⟩, h.traced⟩
  · refine h.of_consolidations fun s hs ↦ ?_
    rcases Table.mem_of_mem_insert hs with hs | rfl
    · exact h.traced s hs
    · exact traced_new _ session
  · rcases go_cases hgo with ⟨s', hturn, rfl⟩ | ⟨rfl, rfl⟩ | rfl
    · refine h.of_consolidations fun t ht ↦ ?_
      rcases Table.mem_update_const (turn_id hturn) ht with rfl | ⟨ht, -⟩
      · exact traced_turn hr h hs hturn
      · exact h.traced t ht
    · exact h.commit hr hs hapart
    · exact h.of_consolidations fun t ht ↦ h.traced t (Table.mem_filter.mp ht).1
  · exact h.erase hr herases

/-! ## The erasure wins -/

/-- Nothing derived from an erased event is left of the subject. -/
structure NothingLeft (r : Race) : Prop where
  facts : ∀ f ∈ r.rows.facts, f.scope = r.erasure.scope → ∀ e ∈ f.sourceEventIds, e ∉ r.erased
  chunks : ∀ c ∈ r.rows.chunks, c.scope = r.erasure.scope → c.id.event ∉ r.erased
  conflictSets : ∀ s ∈ r.rows.conflictSets, s.scope = r.erasure.scope → ∀ id ∈ s.factIds,
    id.event ∉ r.erased

/-- **Nothing is left of an erased subject**, however the erasure is interleaved with
consolidations and captures, when no consolidation that has read events the erasure takes adds
facts or conflict sets of the subject once the erasure deletes facts. -/
theorem erasure_wins {rows : Rows} {scope : Scope} {actions : List RaceAction}
    (hrows : rows.ChunksHaveEvents) (hrun : (start rows scope).run env actions = .ok r)
    (hapart : FoldMeets (fun r action ↦ step r env action) Apart (start rows scope) actions) :
    r.NothingLeft := by
  obtain ⟨hr, hres⟩ := foldlM_invariant (I := fun r ↦ r.Inv ∧ r.Residue)
    (fun r action r' hI hapart hstep ↦ ⟨hI.1.step hstep, hI.2.step hI.1 hapart hstep⟩)
    ⟨inv_start hrows scope, residue_start rows scope⟩ hapart hrun
  have hspared : r.rows.Spared r.erasure.scope r.erased := by
    rw [erased]
    split
    · next hcommitted =>
      rw [Deletion.deleted_of_done (hr.ordered.committed hcommitted)]
      exact hres.spared hcommitted
    · exact ⟨fun _ _ _ ↦ ⟨fun _ _ ↦ List.not_mem_nil, List.not_mem_nil⟩,
        fun _ _ _ _ _ ↦ List.not_mem_nil⟩
  exact ⟨fun f hf hscope ↦ (hspared.facts f hf hscope).1,
    fun c hc _ ↦ hr.chunk_notMem_erased hc, hspared.conflictSets⟩

end Race

/-- A consolidation reads an event and waits for the extractor. -/
def Sample.reads (session : SessionId) (event : EventId) : List RaceAction :=
  [.open session, .go session (.read [event] none), .go session .embed, .go session .chunk,
    .go session .lock, .go session (.look event)]

/-- The extractor answers, the fact is written and the consolidation commits. -/
def Sample.writes (session : SessionId) (event : EventId) : List RaceAction :=
  [.go session (.writeFact event (born event)), .go session (.index event "city"),
    .go session .finish, .go session .commit]

/-- The facts of the subject are deleted. -/
def Sample.deletesFacts : List RaceAction := [.erase .deleteFacts, .erase .factsDeleted]

/-- Everything else is deleted and the erasure commits. -/
def Sample.deletesEvents : List RaceAction :=
  [.erase .deleteConflictSets, .erase .conflictSetsDeleted, .erase .deleteEvents,
    .erase .eventsDeleted, .erase .commit]

/-- One event is captured. -/
def Sample.captured : Rows := { Rows.empty with events := Table.empty.insert (event 1 .trusted) }

theorem Sample.captured_chunksHaveEvents : captured.ChunksHaveEvents :=
  fun _ h ↦ absurd h List.not_mem_nil

/-- The consolidation of the first event commits before the erasure begins.  A third event is
captured when the erasure has taken its events, and consolidated while it is open; a fourth one
afterwards. -/
def Sample.separate : List RaceAction :=
  reads 1 1 ++ writes 1 1 ++ deletesFacts ++ [.capture (event 2 .trusted)] ++
    [.erase .deleteConflictSets, .erase .conflictSetsDeleted, .erase .deleteEvents] ++
    [.capture (event 3 .trusted)] ++ reads 2 3 ++ writes 2 3 ++
    [.erase .eventsDeleted, .erase .commit] ++
    [.capture (event 4 .trusted)] ++ reads 3 4 ++ writes 3 4

theorem Race.erasure_wins_separate :
    ∃ r, (Race.start Sample.captured Sample.scope).run .sampleChunks Sample.separate = .ok r ∧
      r.NothingLeft ∧ r.erased = [1, 2] ∧ r.rows.facts.rows.map Fact.id = [⟨3, 0⟩, ⟨4, 0⟩] := by
  obtain ⟨r, hr⟩ : ∃ r, (Race.start Sample.captured Sample.scope).run .sampleChunks
      Sample.separate = .ok r := exists_eq_ok (by decide +kernel)
  have hrows : ((Race.start Sample.captured Sample.scope).run .sampleChunks Sample.separate).map
      (fun r ↦ (r.erased, r.rows.facts.rows.map Fact.id)) = .ok ([1, 2], [⟨3, 0⟩, ⟨4, 0⟩]) := by
    decide +kernel
  rw [hr] at hrows
  obtain ⟨herased, hfacts⟩ := Prod.mk.inj (Except.ok.inj hrows)
  exact ⟨r, hr, Race.erasure_wins Sample.captured_chunksHaveEvents hr (by decide +kernel), herased,
    hfacts⟩

/-- The erasure begins while the consolidation waits for the extractor, and the fact is committed
after the facts were deleted. -/
def Sample.raced : List RaceAction :=
  reads 1 1 ++ deletesFacts ++ writes 1 1 ++ deletesEvents

/-- The fact outlives its event. -/
theorem Race.fact_outlives_erasure :
    ¬ ∀ env rows scope actions r, rows.ChunksHaveEvents →
      (Race.start rows scope).run env actions = .ok r → r.erasure.committed = true →
      r.consolidations.rows.isEmpty → r.NothingLeft := by
  intro h
  obtain ⟨r, hr⟩ : ∃ r, (Race.start Sample.captured Sample.scope).run .sampleChunks
      Sample.raced = .ok r := exists_eq_ok (by decide +kernel)
  have hrows : ((Race.start Sample.captured Sample.scope).run .sampleChunks Sample.raced).map
      (fun r ↦ (r.erasure.committed, r.consolidations.rows.isEmpty, decide (∃ f ∈ r.rows.facts,
        f.scope = r.erasure.scope ∧ ∃ e ∈ f.sourceEventIds, e ∈ r.erased))) =
      .ok (true, true, true) := by
    decide +kernel
  rw [hr] at hrows
  obtain ⟨hcommitted, hrest⟩ := Prod.mk.inj (Except.ok.inj hrows)
  obtain ⟨hclosed, hleft⟩ := Prod.mk.inj hrest
  obtain ⟨f, hf, hscope, e, he, herased⟩ := of_decide_eq_true hleft
  have hnothing := h _ _ _ _ r Sample.captured_chunksHaveEvents hr hcommitted hclosed
  exact hnothing.facts f hf hscope e he herased

end Haki
