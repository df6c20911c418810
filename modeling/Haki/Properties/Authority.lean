import Haki.Sample
import Haki.Properties.OpenSets

/-!
# What a low-ranked origin cannot reach

An event only ever touches active facts of its own rank or below.  The guarded
comparison covers the matched fact; the other member of an overflowing set is
out of reach because an open set serves one fact at most; a reinforcement of a
higher-ranked fact leaves its freshness clock alone.  And without a human
resolution nothing untrusted is ever active.
-/

namespace Haki

open Data Control

variable {env : Env} {db db' : Db} {event : Event} {c c' : Candidate} {existing : Option Fact}
  {row : Fact} {e : Effect}

/-! ## Higher-ranked facts -/

/-- What is served of a fact, and how it is ranked, is the same. -/
structure Fact.ServedAs (f f' : Fact) : Prop where
  id : f'.id = f.id
  status : f'.status = f.status
  value : f'.value = f.value
  validTo : f'.validTo = f.validTo
  memoryForm : f'.memoryForm = f.memoryForm
  freshnessClock : f'.freshnessClock = f.freshnessClock
  originTrust : f'.originTrust = f.originTrust

theorem Fact.ServedAs.refl (f : Fact) : f.ServedAs f := ⟨rfl, rfl, rfl, rfl, rfl, rfl, rfl⟩

theorem Fact.ServedAs.trans {f g k : Fact} (h : f.ServedAs g) (h' : g.ServedAs k) : f.ServedAs k :=
  ⟨h'.id.trans h.id, h'.status.trans h.status, h'.value.trans h.value, h'.validTo.trans h.validTo,
    h'.memoryForm.trans h.memoryForm, h'.freshnessClock.trans h.freshnessClock,
    h'.originTrust.trans h.originTrust⟩

/-- Every active fact ranked above `rank` is served as before, and is in no open set that it was
not in before. -/
def Db.Respects (rank : Nat) (db db' : Db) : Prop :=
  ∀ f ∈ db.facts, f.status = .active → rank < f.originTrust.rank →
    (∃ f' ∈ db'.facts, f.ServedAs f') ∧
      ∀ s' ∈ db'.conflictSets, s'.status = .open → f.id ∈ s'.factIds →
        ∃ s ∈ db.conflictSets, s.id = s'.id ∧ s.status = .open ∧ f.id ∈ s.factIds

namespace Db.Respects

variable {rank : Nat}

theorem refl (rank : Nat) (db : Db) : db.Respects rank db :=
  fun f hf _ _ ↦ ⟨⟨f, hf, .refl f⟩, fun s hs ho hid ↦ ⟨s, hs, rfl, ho, hid⟩⟩

theorem trans {db₁ db₂ db₃ : Db} (h : db₁.Respects rank db₂) (h' : db₂.Respects rank db₃) :
    db₁.Respects rank db₃ := by
  intro f hf ha hr
  obtain ⟨⟨g, hg, hfg⟩, hsets⟩ := h f hf ha hr
  obtain ⟨⟨k, hk, hgk⟩, hsets'⟩ := h' g hg (hfg.status.trans ha) (hfg.originTrust ▸ hr)
  refine ⟨⟨k, hk, hfg.trans hgk⟩, fun s₃ hs₃ ho₃ hid ↦ ?_⟩
  obtain ⟨s₂, hs₂, hid₂, ho₂, hmem₂⟩ := hsets' s₃ hs₃ ho₃ (hfg.id ▸ hid)
  obtain ⟨s₁, hs₁, hid₁, ho₁, hmem₁⟩ := hsets s₂ hs₂ ho₂ (hfg.id ▸ hmem₂)
  exact ⟨s₁, hs₁, hid₁.trans hid₂, ho₁, hmem₁⟩

end Db.Respects

/-- Reinforcing a fact ranked above the event leaves it served as before. -/
theorem Fact.servedAs_reinforcedBy {f : Fact} (hr : event.originTrust.rank < f.originTrust.rank) :
    f.ServedAs (f.reinforcedBy event) := by
  have hclock : (f.reinforcedBy event).lastReinforcedAt = f.lastReinforcedAt :=
    if_neg fun h ↦ absurd h.1 (not_le.mpr hr)
  exact ⟨rfl, rfl, rfl, rfl, rfl, by rw [freshnessClock, hclock]; rfl, rfl⟩

/-- A candidate that is not held back is matched with a fact of the event's rank or below. -/
theorem rank_le_of_not_heldBack {old : Fact} (h : ¬ HeldBack event (some old)) :
    old.originTrust.rank ≤ event.originTrust.rank := by
  by_contra hlt
  exact h (.inl ⟨old, rfl, not_le.mp hlt⟩)

/-- An effect respects the facts ranked above the event. -/
theorem Adjudicated.respects (hadj : Adjudicated env db event c c' existing row e)
    (hopen : db.OpenSets) : db.Respects event.originTrust.rank (e.apply env event db row) := by
  intro f hf ha hr
  have not_old {old : Fact} (hheld : ¬ HeldBack event existing) (hx : existing = some old) :
      f.id ≠ old.id := by
    intro hid
    obtain rfl := Db.eq_of_id_eq hf (hadj.active old hx).1 hid
    exact absurd (rank_le_of_not_heldBack (hx ▸ hheld)) (not_le.mpr hr)
  constructor
  · refine ⟨e.onFact env event f, (Effect.mem_apply hadj.fresh).mpr (.inl ⟨f, hf, rfl⟩), ?_⟩
    rcases @Effect.onFact_cases env event e f with
      he | ⟨old, rfl, hid, -⟩ | ⟨old, s, other, rfl, hmem, -⟩
    · exact he.symm ▸ .refl f
    · obtain ⟨hheld, hx, -⟩ := hadj.guard
      exact absurd hid (not_old hheld hx)
    · obtain ⟨_, hcontra, rfl, hfull, otherId, hfind, rfl, -⟩ := hadj.guard
      rcases hmem with hid | ⟨o, ho, hid⟩
      · exact absurd hid (not_old hcontra.notHeld hcontra.matched)
      · -- Both `old` and `f` would be served by the set that overflows.
        obtain ⟨hs, -, hos, holdmem⟩ := Db.openConflictSet_some hfull.openSet
        obtain ⟨hold, -, hact⟩ := hadj.active old hcontra.matched
        rw [Db.id_of_fact? ho] at hid
        have hfmem : f.id ∈ s.factIds := hid ▸ List.mem_of_find?_eq_some hfind
        have := hopen.served s hs hos f hf old hold ha hact hfmem holdmem
        exact absurd (congrArg Fact.id this) (not_old hcontra.notHeld hcontra.matched)
  · intro s' hs' ho hid
    rcases hopen.open_onSets hadj hs' ho with
      ⟨s, hs, hos, hsid, -, -, -, rfl | ⟨-, rfl⟩⟩ | ⟨-, rfl⟩ | ⟨old, rfl, hx, rfl, -⟩
    · exact ⟨s', hs, rfl, hos, hid⟩
    · have hid := (List.mem_append.mp hid).resolve_right fun h ↦
        hadj.fresh f hf (List.mem_singleton.mp h)
      exact ⟨s, hs, hsid, hos, hid⟩
    · exact absurd (List.mem_singleton.mp hid) (hadj.fresh f hf)
    · obtain ⟨_, hcontra, rfl, -⟩ := hadj.guard
      exact absurd ((List.mem_pair.mp hid).resolve_right (hadj.fresh f hf))
        (not_old hcontra.notHeld hx)

/-- Applying a candidate respects the facts ranked above the event. -/
theorem applyCandidate_respects {embedding : Embedding} {result result' : JobResult}
    (hu : db.UniqueActive) (hopen : db.OpenSets)
    (h : applyCandidate env db c embedding event result = .ok (db', result')) :
    db.Respects event.originTrust.rank db' := by
  cases applyCandidate_applied hu h with
  | counted => exact .refl _ db
  | reinforced aliases d =>
    intro f hf ha hr
    refine ⟨⟨_, mem_reinforced.mpr ⟨f, hf, rfl⟩, ?_⟩,
      fun s hs ho hid ↦ ⟨s, hs, rfl, ho, hid⟩⟩
    split
    · exact f.servedAs_reinforcedBy hr
    · exact .refl f
  | written aliases c' existing row e _ hadj => exact hadj.respects hopen

/-- Processing an event respects the facts ranked above it. -/
theorem processEvent_respects {extract : Extractor} {state state' : Db × JobResult}
    (hu : state.1.UniqueActive) (hopen : state.1.OpenSets)
    (h : processEvent env extract state event = .ok state') :
    state.1.Respects event.originTrust.rank state'.1 := by
  refine (processEvent_invariant (I := fun db ↦ db.UniqueActive ∧ db.OpenSets ∧
      state.1.Respects event.originTrust.rank db) (C := fun _ _ _ ↦ True)
    (fun db events hI ↦ ⟨hI.1, ⟨hI.2.1.scope, hI.2.1.apart, hI.2.1.served⟩, hI.2.2⟩)
    (fun db c result db' result' hI _ h ↦ ?_) ⟨hu, hopen, .refl _ state.1⟩
    (fun _ _ ↦ foldMeets_of_forall (fun _ _ _ ↦ trivial) _ _) h).2.2
  obtain ⟨hu, hopen, hresp⟩ := hI
  exact ⟨applyCandidate_unique hu h, applyCandidate_openSets hu hopen h,
    hresp.trans (applyCandidate_respects hu hopen h)⟩

/-! ## Untrusted facts -/

/-- Nothing untrusted is active, and an untrusted fact is alone in its open set. -/
structure Db.UntrustedHeld (db : Db) : Prop where
  inactive : ∀ f ∈ db.facts, f.originTrust = .untrusted → f.status ≠ .active
  alone : ∀ s ∈ db.conflictSets, s.status = .open → ∀ f ∈ db.facts, f.originTrust = .untrusted →
    f.id ∈ s.factIds → s.factIds = [f.id]

theorem Db.UntrustedHeld.retires (h : db.UntrustedHeld) (hr : db.Retires db') :
    db'.UntrustedHeld where
  inactive f' hf' hu ha := by
    obtain ⟨f, hf, -, -, htrust, hstatus⟩ := hr.facts f' hf'
    exact h.inactive f hf (htrust.trans hu) (hstatus ha)
  alone s hs ho f' hf' hu hid := by
    obtain ⟨f, hf, hid', -, htrust, -⟩ := hr.facts f' hf'
    exact hid' ▸ h.alone s (hr.conflictSets s hs) ho f hf (htrust.trans hu) (hid' ▸ hid)

/-- An effect keeps untrusted facts held. -/
theorem Adjudicated.untrustedHeld (hadj : Adjudicated env db event c c' existing row e)
    (hopen : db.OpenSets) (h : db.UntrustedHeld) : (e.apply env event db row).UntrustedHeld := by
  -- An untrusted row is held: any other effect is that of an event that is not untrusted.
  have held (hu : row.originTrust = .untrusted) : e = .hold := by
    have hheld : HeldBack event existing := .inr (hadj.originTrust ▸ hu)
    cases he : e with
    | hold => rfl
    | accept | replace => exact absurd hheld (he ▸ hadj.guard).1
    | openConflict | joinConflict | overflow =>
      obtain ⟨_, hcontra, -⟩ := he ▸ hadj.guard
      exact absurd hheld hcontra.notHeld
  have old_trusted {old : Fact} (hx : existing = some old) : old.originTrust ≠ .untrusted :=
    fun hu ↦ h.inactive old (hadj.active old hx).1 hu (hadj.active old hx).2.2
  -- An untrusted fact is in no open set with the matched fact.
  have apart {old f : Fact} (hx : existing = some old) (hf : f ∈ db.facts)
      (hu : f.originTrust = .untrusted) {s : ConflictSet} (hs : s ∈ db.conflictSets)
      (ho : s.status = .open) (hold : old.id ∈ s.factIds) : f.id ∉ s.factIds := by
    intro hid
    rw [h.alone s hs ho f hf hu hid, List.mem_singleton] at hold
    obtain rfl := Db.eq_of_id_eq (hadj.active old hx).1 hf hold
    exact old_trusted hx hu
  constructor
  · intro f' hf' hu ha
    rcases hadj.mem_apply hf' with ⟨f, hf, rfl, -, hcontent⟩ | ⟨rfl, -, hcontent⟩
    · replace hu := (Fact.originTrust_of_content hcontent).trans hu
      rcases @Effect.onFact_cases env event e f with
        he | ⟨old, -, -, he⟩ | ⟨old, s, other, rfl, hmem, -⟩
      · exact h.inactive f hf hu (he ▸ ha)
      · rw [he] at ha
        cases ha
      · obtain ⟨_, hcontra, rfl, hfull, otherId, hfind, rfl, -⟩ := hadj.guard
        obtain ⟨hs, -, hos, hold⟩ := Db.openConflictSet_some hfull.openSet
        refine apart hcontra.matched hf hu hs hos hold ?_
        rcases hmem with hid | ⟨o, ho, hid⟩
        · exact hid ▸ hold
        · rw [hid, Db.id_of_fact? ho]
          exact List.mem_of_find?_eq_some hfind
    · rw [held ((Fact.originTrust_of_content hcontent).symm.trans hu)] at ha
      cases hadj.status.symm.trans ha
  · intro s' hs' ho f' hf' hu hid
    have not_row (he : e ≠ .hold) : f'.id ≠ row.id := by
      rcases hadj.mem_apply hf' with ⟨f, hf, -, hid', -⟩ | ⟨-, -, hcontent⟩
      · exact hid' ▸ hadj.fresh f hf
      · exact absurd (held ((Fact.originTrust_of_content hcontent).symm.trans hu)) he
    have before (hne : f'.id ≠ row.id) :
        ∃ f ∈ db.facts, f.originTrust = .untrusted ∧ f.id = f'.id := by
      rcases hadj.mem_apply hf' with ⟨f, hf, -, hid', hcontent⟩ | ⟨-, hid', -⟩
      · exact ⟨f, hf, (Fact.originTrust_of_content hcontent).trans hu, hid'⟩
      · exact absurd hid' hne
    rcases hopen.open_onSets hadj hs' ho with
      ⟨s, hs, hos, -, -, -, -, rfl | ⟨rfl, rfl⟩⟩ | ⟨-, rfl⟩ | ⟨old, rfl, hx, rfl, -⟩
    · obtain ⟨f, hf, hu, hid'⟩ := before fun h ↦ hadj.notMem_set hs (h ▸ hid)
      exact hid' ▸ h.alone s' hs hos f hf hu (hid' ▸ hid)
    · have hne := not_row (by simp)
      have hid := (List.mem_append.mp hid).resolve_right fun h ↦ hne (List.mem_singleton.mp h)
      obtain ⟨f, hf, hu, hid'⟩ := before hne
      obtain ⟨old, hcontra, hopen, -⟩ := hadj.guard
      exact absurd (hid' ▸ hid)
          (apart hcontra.matched hf hu hs hos (Db.openConflictSet_some hopen).2.2.2)
    · rw [List.mem_singleton.mp hid]
      rfl
    · have hne := not_row (by simp)
      obtain ⟨f, hf, hu, hid'⟩ := before hne
      have hid := (List.mem_pair.mp hid).resolve_right hne
      obtain rfl := Db.eq_of_id_eq hf (hadj.active old hx).1 (hid'.trans hid)
      exact absurd hu (old_trusted hx)

/-- Untrusted facts are held in every run without a resolution. -/
theorem untrustedHeld_invariant (env : Env) :
    Invariant env Op.IsNotResolution (fun _ _ _ _ ↦ True)
      fun db ↦ db.OpenSets ∧ db.UntrustedHeld where
  empty := ⟨(openSets_invariant env Op.IsNotResolution).empty, by rintro _ ⟨⟩, by rintro _ ⟨⟩⟩
  frame db events traces h := ⟨⟨h.1.scope, h.1.apart, h.1.served⟩, h.2.inactive, h.2.alone⟩
  candidate now event db c result db' result' hu h _ ha := by
    refine ⟨applyCandidate_openSets hu h.1 ha, ?_⟩
    cases applyCandidate_applied hu ha with
    | counted => exact ⟨h.2.inactive, h.2.alone⟩
    | reinforced aliases f =>
      have h' := h.2.retires (Db.retires_reinforced db event f.id)
      exact ⟨h'.inactive, h'.alone⟩
    | written aliases c' existing row e _ hadj =>
      have h' := hadj.untrustedHeld h.1 h.2
      exact ⟨h'.inactive, h'.alone⟩
  other db op db' hop hres hu h he :=
    ⟨h.1.retires (Op.exec_retires hop hres he), h.2.retires (Op.exec_retires hop hres he)⟩

/-- **Trust authority.**  In every ledger that consolidation reaches, consolidating an event leaves
the active facts ranked above it as they are served, in no new open set; and in every ledger
reached without a resolution nothing untrusted is active. -/
theorem consolidation_respects_authority (env : Env) :
    (∀ db, Reachable env Op.IsConsolidation db → ∀ now extract result event state',
      processEvent (env.at now) extract (db, result) event = .ok state' →
        db.Respects event.originTrust.rank state'.1) ∧
    ∀ db, Reachable env Op.IsNotResolution db → ∀ f ∈ db.facts, f.originTrust = .untrusted →
      f.status ≠ .active :=
  ⟨fun _ hdb _ _ _ _ _ h ↦ processEvent_respects hdb.unique hdb.openSets h,
    fun _ hdb ↦ ((untrustedHeld_invariant env).reachable hdb).2.2.inactive⟩

/-- A third party contradicts what the subject said. -/
theorem consolidation_respects_lyon :
    ∃ state', processEvent (Env.sample.at 2) (Sample.always [Sample.create "city" "Nice"])
        (Sample.lyon, {}) (Sample.event 2 .thirdParty) = .ok state' ∧
      Sample.lyon.Respects OriginTrust.thirdParty.rank state'.1 ∧
      ∀ f ∈ Sample.lyon.facts, f.originTrust = .untrusted → f.status ≠ .active := by
  obtain ⟨state', h⟩ : ∃ state', processEvent (Env.sample.at 2)
      (Sample.always [Sample.create "city" "Nice"]) (Sample.lyon, {}) (Sample.event 2 .thirdParty) =
        .ok state' := exists_eq_ok (by decide +kernel)
  obtain ⟨ops, hops, hrun⟩ := Sample.lyon_reachable
  have hres : ∀ op ∈ ops, op.IsNotResolution := fun op hop ↦ by
    have := hops op hop
    cases op <;> trivial
  exact ⟨state', h,
    (consolidation_respects_authority .sample).1 _ Sample.lyon_reachable 2 _ {} _ state' h,
    (consolidation_respects_authority .sample).2 _ ⟨ops, hres, hrun⟩⟩

end Haki
