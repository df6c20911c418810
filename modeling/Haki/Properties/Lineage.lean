import Haki.Data.Acyclic
import Haki.Properties.OpenSets
import Haki.Sample
import Haki.Writes

/-!
# The lineage of facts

The consolidator points a new fact at the one it replaces; a resolution points
a losing member at the kept one.  Both kinds of links together stay acyclic,
because one end of every new link is a fact that no link touches yet: a new
row, or a member of an open set that was never active.
-/

namespace Haki

open Data Control

variable {env : Env} {db db' : Db} {event : Event} {c c' : Candidate} {existing : Option Fact}
  {row : Fact} {e : Effect} {s : ConflictSet} {now : Timestamp} {keep id : FactId}

/-! ## Links -/

/-- The fact `a` points at the fact `b`. -/
def Db.Links (db : Db) (a b : FactId) : Prop := ∃ f ∈ db.facts, f.id = a ∧ f.supersedesId = some b

/-- A fact that was never active: a candidate without links. -/
structure Db.Isolated (db : Db) (id : FactId) : Prop where
  status : ∀ f ∈ db.facts, f.id = id → f.status = .candidate
  source : ∀ b, ¬ db.Links id b
  target : ∀ a, ¬ db.Links a id

/-- A fact does not end before it starts. -/
def Fact.ValidInterval (f : Fact) : Prop :=
  ∀ start ∈ f.validFrom, ∀ stop ∈ f.validTo, start ≤ stop

/-- The links are acyclic, and all but one member of every open set were never active. -/
structure Db.Lineage (db : Db) : Prop where
  refs : ∀ a b, db.Links a b → ∃ g ∈ db.facts, g.id = b
  acyclic : Acyclic db.Links
  intervals : ∀ f ∈ db.facts, f.ValidInterval
  newcomers : ∀ s ∈ db.conflictSets, s.status = .open →
    ∃ i, ∀ id ∈ s.factIds, id ≠ i → db.Isolated id

/-! ## Applying a candidate -/

theorem Effect.onFact_supersedesId (e : Effect) (f : Fact) :
    (e.onFact env event f).supersedesId = f.supersedesId := by
  rcases @Effect.onFact_cases env event e f with h | ⟨old, -, -, h⟩ | ⟨_, _, _, -, -, h⟩
  · rw [h]
  · rw [h]
    rfl
  · rw [h, Fact.asOccurrence]
    split <;> rfl

theorem Adjudicated.onRow_supersedesId (h : Adjudicated env db event c c' existing row e)
    {b : FactId} (hb : (e.onRow env row).supersedesId = some b) :
    ∃ old, e = .replace old ∧ b = old.id := by
  cases e with
  | replace old => exact ⟨old, rfl, (Option.some.inj hb).symm⟩
  | _ => cases h.supersedesId.symm.trans hb

/-- An effect adds at most one link, from the new row to the replaced fact. -/
theorem Adjudicated.links_apply (h : Adjudicated env db event c c' existing row e) {a b : FactId}
    (hl : (e.apply env event db row).Links a b) :
    db.Links a b ∨ (a = row.id ∧ ∃ old, e = .replace old ∧ b = old.id) := by
  obtain ⟨f', hf', rfl, hb⟩ := hl
  rcases h.mem_apply hf' with ⟨f, hf, rfl, hid, -⟩ | ⟨rfl, hid, -⟩
  · exact .inl ⟨f, hf, hid, by rwa [Effect.onFact_supersedesId] at hb⟩
  · exact .inr ⟨hid, h.onRow_supersedesId hb⟩

/-- Every fact is there after the effect. -/
theorem Adjudicated.stays_apply (h : Adjudicated env db event c c' existing row e) {f : Fact}
    (hf : f ∈ db.facts) : ∃ f' ∈ (e.apply env event db row).facts, f'.id = f.id :=
  ⟨_, (Effect.mem_apply h.fresh).mpr (.inl ⟨f, hf, rfl⟩), e.onFact_id env event f⟩

namespace Db.Lineage

/-- The lineage is about facts and conflict sets. -/
theorem frame (h : db.Lineage) (events : Table Event) (aliases : Table PredicateAlias)
    (traces : List ContextTrace) :
    ({ db with events := events, predicateAliases := aliases, contextTraces := traces } :
      Db).Lineage := by
  refine ⟨h.refs, h.acyclic, h.intervals, fun s hs ho ↦ ?_⟩
  obtain ⟨i, hi⟩ := h.newcomers s hs ho
  refine ⟨i, fun id hid hne ↦ ?_⟩
  obtain ⟨hstatus, hsource, htarget⟩ := hi id hid hne
  exact ⟨hstatus, hsource, htarget⟩

/-- No link touches the new row. -/
theorem not_links_row (h : db.Lineage) (hadj : Adjudicated env db event c c' existing row e)
    (a : FactId) : ¬ db.Links a row.id ∧ ¬ db.Links row.id a := by
  refine ⟨fun hl ↦ ?_, fun ⟨f, hf, hid, _⟩ ↦ hadj.fresh f hf hid⟩
  obtain ⟨g, hg, hid⟩ := h.refs a row.id hl
  exact hadj.fresh g hg hid

/-- An isolated member of an open set that does not overflow stays isolated. -/
theorem isolated_apply (hopen : db.OpenSets)
    (hadj : Adjudicated env db event c c' existing row e) (hs : s ∈ db.conflictSets)
    (ho : s.status = .open) (hne : ∀ old s₀ other, e = .overflow old s₀ other → s ≠ s₀)
    (hid : id ∈ s.factIds) (hi : db.Isolated id) : (e.apply env event db row).Isolated id := by
  have hrow : id ≠ row.id := fun heq ↦ hadj.notMem_set hs (heq ▸ hid)
  -- A replaced fact is active.
  have hold {old : Fact} (he : e = .replace old) : id ≠ old.id := by
    subst he
    rintro rfl
    obtain ⟨hm, -, ha⟩ := hadj.active old hadj.guard.2.1
    cases (hi.status old hm rfl).symm.trans ha
  refine ⟨fun f' hf' hfid ↦ ?_, fun b hl ↦ ?_, fun a hl ↦ ?_⟩
  · rcases hadj.mem_apply hf' with ⟨f, hf, rfl, hidf, -⟩ | ⟨-, hidf, -⟩
    · have hfid : f.id = id := hidf.trans hfid
      rcases hopen.onFact_of_open hadj hs ho (hfid ▸ hid) hne with he | ⟨old, he, hidold, -⟩
      · rw [he]
        exact hi.status f hf hfid
      · exact absurd (hfid.symm.trans hidold) (hold he)
    · exact absurd (hfid.symm.trans hidf) hrow
  · rcases hadj.links_apply hl with hl | ⟨heq, -⟩
    · exact hi.source b hl
    · exact hrow heq
  · rcases hadj.links_apply hl with hl | ⟨-, old, he, heq⟩
    · exact hi.target a hl
    · exact hold he heq

/-- The row of a candidate that waits is isolated. -/
theorem isolated_row (h : db.Lineage) (hadj : Adjudicated env db event c c' existing row e)
    (hrow : e.onRow env row = row) (hne : ∀ old, e ≠ .replace old) :
    (e.apply env event db row).Isolated row.id := by
  refine ⟨fun f' hf' hfid ↦ ?_, fun b hl ↦ ?_, fun a hl ↦ ?_⟩
  · rcases hadj.mem_apply hf' with ⟨f, hf, rfl, hidf, -⟩ | ⟨rfl, -, -⟩
    · exact absurd (hidf.trans hfid) (hadj.fresh f hf)
    · rw [hrow]
      exact hadj.status
  · rcases hadj.links_apply hl with hl | ⟨-, old, he, -⟩
    · exact (h.not_links_row hadj b).2 hl
    · exact hne old he
  · rcases hadj.links_apply hl with hl | ⟨-, old, he, -⟩
    · exact (h.not_links_row hadj a).1 hl
    · exact hne old he

/-- A closed interval starts where the fact does. -/
theorem closedAt_valid (f : Fact) (event : Event) (now : Timestamp) :
    (f.closedAt (closingTime f event) now).ValidInterval := by
  rintro start hstart stop ⟨⟩
  have hstart : f.validFrom = some start := hstart
  rw [closingTime, hstart]
  dsimp only
  split
  · exact le_rfl
  · next h => exact not_lt.mp h

/-- Applying an effect keeps the lineage. -/
theorem apply (h : db.Lineage) (hopen : db.OpenSets)
    (hadj : Adjudicated env db event c c' existing row e) :
    (e.apply env event db row).Lineage where
  refs a b hl := by
    rcases hadj.links_apply hl with hl | ⟨-, old, rfl, rfl⟩
    · obtain ⟨g, hg, rfl⟩ := h.refs a b hl
      exact hadj.stays_apply hg
    · exact hadj.stays_apply (hadj.active old hadj.guard.2.1).1
  acyclic := by
    refine h.acyclic.of_source (N := (· = row.id)) (fun a b hl ↦ ?_) fun a b hb hl ↦ ?_
    · exact (hadj.links_apply hl).imp_right And.left
    · subst hb
      rcases hadj.links_apply hl with hl | ⟨-, old, rfl, hid⟩
      · exact (h.not_links_row hadj a).1 hl
      · exact hadj.fresh old (hadj.active old hadj.guard.2.1).1 hid.symm
  intervals f' hf' := by
    rcases hadj.mem_apply hf' with ⟨f, hf, rfl, -, -⟩ | ⟨rfl, -, -⟩
    · rcases @Effect.onFact_cases env event e f with
        he | ⟨old, rfl, hid, he⟩ | ⟨_, _, _, -, -, he⟩
      · exact he.symm ▸ h.intervals f hf
      · obtain rfl := eq_of_id_eq hf (hadj.active old hadj.guard.2.1).1 hid
        exact he.symm ▸ closedAt_valid f event env.now
      · rw [he, Fact.asOccurrence]
        split <;> exact h.intervals f hf
    · intro start _ stop hstop
      have hnone : (e.onRow env row).validTo = none := by
        cases e <;> exact hadj.validTo
      cases hnone.symm.trans hstop
  newcomers s' hs' ho := by
    rcases hopen.open_onSets hadj hs' ho with
      ⟨s, hs, hos, -, -, -, hne, rfl | ⟨rfl, rfl⟩⟩ | ⟨rfl, rfl⟩ | ⟨old, rfl, -, rfl, -⟩
    · obtain ⟨i, hi⟩ := h.newcomers s' hs hos
      exact ⟨i, fun id hid hidi ↦ isolated_apply hopen hadj hs hos hne hid (hi id hid hidi)⟩
    · obtain ⟨i, hi⟩ := h.newcomers s hs hos
      refine ⟨i, fun id hid hidi ↦ ?_⟩
      rcases List.mem_append.mp hid with hid | hid
      · exact isolated_apply hopen hadj hs hos hne hid (hi id hid hidi)
      · rw [List.mem_singleton.mp hid]
        exact h.isolated_row hadj rfl (by simp)
    · exact ⟨row.id, fun id hid hidi ↦ absurd (List.mem_singleton.mp hid) hidi⟩
    · refine ⟨old.id, fun id hid hidi ↦ ?_⟩
      rw [(List.mem_pair.mp hid).resolve_left hidi]
      exact h.isolated_row hadj rfl (by simp)

/-- A rewriting that keeps status, link and validity keeps the lineage. -/
theorem updateFact (h : db.Lineage) {g : Fact → Fact}
    (hg : ∀ f, (g f).id = f.id ∧ (g f).status = f.status ∧ (g f).supersedesId = f.supersedesId ∧
      (g f).validFrom = f.validFrom ∧ (g f).validTo = f.validTo) : (db.updateFact id g).Lineage := by
  have hid := fun f ↦ (hg f).1
  have back {f' : Fact} (hf' : f' ∈ (db.updateFact id g).facts) : ∃ f ∈ db.facts, f.id = f'.id ∧
      f.status = f'.status ∧ f.supersedesId = f'.supersedesId ∧ f.validFrom = f'.validFrom ∧
      f.validTo = f'.validTo := by
    obtain ⟨f, hf, rfl⟩ := (Db.mem_updateFact hid).mp hf'
    refine ⟨f, hf, ?_⟩
    split
    · obtain ⟨hi, hs, hl, hv, ht⟩ := hg f
      exact ⟨hi.symm, hs.symm, hl.symm, hv.symm, ht.symm⟩
    · exact ⟨rfl, rfl, rfl, rfl, rfl⟩
  have links {a b : FactId} (hl : (db.updateFact id g).Links a b) : db.Links a b := by
    obtain ⟨f', hf', rfl, hb⟩ := hl
    obtain ⟨f, hf, hi, -, hlink, -⟩ := back hf'
    exact ⟨f, hf, hi, hlink.trans hb⟩
  refine ⟨fun a b hl ↦ ?_, h.acyclic.mono fun _ _ ↦ links, fun f' hf' ↦ ?_, fun s hs ho ↦ ?_⟩
  · obtain ⟨f, hf, rfl⟩ := h.refs a b (links hl)
    refine ⟨_, (Db.mem_updateFact hid).mpr ⟨f, hf, rfl⟩, ?_⟩
    split
    · exact hid f
    · rfl
  · obtain ⟨f, hf, -, -, -, hv, ht⟩ := back hf'
    have := h.intervals f hf
    rwa [Fact.ValidInterval, hv, ht] at this
  · obtain ⟨i, hi⟩ := h.newcomers s hs ho
    refine ⟨i, fun j hj hji ↦ ?_⟩
    have hiso := hi j hj hji
    refine ⟨fun f' hf' hfid ↦ ?_, fun b hl ↦ hiso.source b (links hl),
      fun a hl ↦ hiso.target a (links hl)⟩
    obtain ⟨f, hf, hidf, hstatus, -⟩ := back hf'
    exact hstatus ▸ hiso.status f hf (hidf.trans hfid)

end Db.Lineage

theorem applyCandidate_lineage {embedding : Embedding} {result result' : JobResult}
    (hu : db.UniqueActive) (hopen : db.OpenSets) (h : db.Lineage)
    (ha : applyCandidate env db c embedding event result = .ok (db', result')) : db'.Lineage := by
  cases applyCandidate_applied hu ha with
  | counted aliases => exact h.frame _ aliases _
  | reinforced aliases f =>
    refine Db.Lineage.frame (h.updateFact (g := (·.reinforcedBy event)) fun _ ↦ ?_) _ aliases _
    exact ⟨rfl, rfl, rfl, rfl, rfl⟩
  | written aliases c' existing row e _ hadj => exact (h.apply hopen hadj).frame _ aliases _

/-! ## Resolving a set -/

/-- The kept member of a walk that succeeds is there. -/
theorem resolveMembers_keep {ids : List FactId}
    (h : ids.foldlM (resolveMember now keep) db = .ok db') (hk : keep ∈ ids) :
    ∃ f ∈ db.facts, f.id = keep := by
  induction ids generalizing db with
  | nil => cases hk
  | cons id ids ih =>
    obtain ⟨db₁, h₁, h⟩ := foldlM_cons_eq_ok.mp h
    by_cases hid : id = keep
    · subst hid
      rw [resolveMember, if_pos rfl] at h₁
      obtain ⟨f, hf, -⟩ := keepMember_eq_ok h₁
      exact ⟨f, Db.mem_of_fact? hf, Db.id_of_fact? hf⟩
    · obtain ⟨f, hf, hfid⟩ := ih h ((List.mem_cons.mp hk).resolve_left (Ne.symm hid))
      rcases resolveMember_eq_ok h₁ with rfl | ⟨g, hg, rfl⟩
      · exact ⟨f, hf, hfid⟩
      · obtain ⟨f₀, hf₀, rfl⟩ := (Db.mem_updateFact fun f ↦ (hg f).1).mp hf
        refine ⟨f₀, hf₀, ?_⟩
        split at hfid
        · exact (hg f₀).1.symm.trans hfid
        · exact hfid

/-- A resolution adds at most links from losing members to the kept one. -/
theorem resolveMembers_links {ids : List FactId}
    (h : ids.foldlM (resolveMember now keep) db = .ok db') {a b : FactId} (hl : db'.Links a b) :
    db.Links a b ∨ ((a ∈ ids ∧ a ≠ keep) ∧ b = keep) := by
  obtain ⟨f', hf', rfl, hb⟩ := hl
  obtain ⟨f, hf, hr⟩ := exists_resolves h hf'
  cases hr with
  | same => exact .inl ⟨_, hf, rfl, hb⟩
  | kept => exact .inl ⟨_, hf, rfl, hb⟩
  | lost hmem hid => exact .inr ⟨⟨hmem, hid⟩, (Option.some.inj hb).symm⟩

namespace Db.Lineage

/-- The links stay acyclic: nothing points at a losing member, or the kept one points at nothing. -/
theorem acyclic_resolve (h : db.Lineage) (hs : s ∈ db.conflictSets) (ho : s.status = .open)
    (hk : keep ∈ s.factIds) (hwalk : s.factIds.foldlM (resolveMember now keep) db = .ok db') :
    Acyclic db'.Links := by
  obtain ⟨i, hi⟩ := h.newcomers s hs ho
  by_cases hki : keep = i
  · refine h.acyclic.of_source (N := fun a ↦ a ∈ s.factIds ∧ a ≠ keep) (fun a b hl ↦ ?_)
      fun a b hb hl ↦ ?_
    · exact (resolveMembers_links hwalk hl).imp_right And.left
    · rcases resolveMembers_links hwalk hl with hl | ⟨-, hbk⟩
      · exact (hi b hb.1 fun hbi ↦ hb.2 (hbi.trans hki.symm)).target a hl
      · exact hb.2 hbk
  · refine h.acyclic.of_sink (N := (· = keep)) (fun a b hl ↦ ?_) fun a b ha hl ↦ ?_
    · exact (resolveMembers_links hwalk hl).imp_right And.right
    · rcases resolveMembers_links hwalk hl with hl | ⟨hak, -⟩
      · exact (hi keep hk hki).source b (ha ▸ hl)
      · exact hak.2 ha

/-- Resolving a set keeps the lineage. -/
theorem resolve (h : db.Lineage) (hopen : db.OpenSets) (hs : s ∈ db.conflictSets)
    (ho : s.status = .open) (hk : keep ∈ s.factIds)
    (hwalk : s.factIds.foldlM (resolveMember now keep) db = .ok db') :
    (db'.updateConflictSet s.id (·.resolve now)).Lineage := by
  have hmoves := resolveMembers_moves hwalk
  have hacyclic : Acyclic db'.Links := h.acyclic_resolve hs ho hk hwalk
  refine ⟨fun a b hl ↦ ?_, hacyclic, fun f' hf' ↦ ?_, fun t ht hto ↦ ?_⟩
  · have hb : ∃ f ∈ db.facts, f.id = b := by
      rcases resolveMembers_links hwalk hl with hl | ⟨-, rfl⟩
      · exact h.refs a b hl
      · exact resolveMembers_keep hwalk hk
    obtain ⟨f, hf, rfl⟩ := hb
    exact hmoves.stays f hf
  · obtain ⟨f, hf, hr⟩ := exists_resolves hwalk hf'
    have hvalid := h.intervals f hf
    cases hr <;> exact hvalid
  · obtain ⟨ht₀, hsame⟩ := hopen.open_resolve hs ho hmoves ht hto
    obtain ⟨j, hj⟩ := h.newcomers t ht₀ hto
    refine ⟨j, fun id hid hidj ↦ ?_⟩
    have hiso := hj id hid hidj
    have hnot : id ≠ keep := by
      -- The members of another open set are not members of this one.
      rintro rfl
      have hts : t = s := hopen.apart t ht₀ s hs hto ho id hid hk
      obtain ⟨u, hu, hut⟩ := (Table.mem_update fun u _ ↦ u.resolve_id now).mp ht
      split at hut
      · cases (congrArg ConflictSet.status hut).trans hto
      · next hne => exact hne (congrArg ConflictSet.id (hut.trans hts))
    have same {f' : Fact} (hf' : f' ∈ db'.facts) (hfid : f'.id = id) : f' ∈ db.facts :=
      mem_of_fact? ((hsame f'.id (hfid ▸ hid)).symm.trans (fact?_of_mem hf'))
    refine ⟨fun f' hf' hfid ↦ hiso.status f' (same hf' hfid) hfid, ?_, fun a hl ↦ ?_⟩
    · rintro b ⟨f', hf', hfid, hb⟩
      exact hiso.source b ⟨f', same hf' hfid, hfid, hb⟩
    · rcases resolveMembers_links hwalk hl with hl | ⟨-, hidk⟩
      · exact hiso.target a hl
      · exact hnot hidk

end Db.Lineage

/-- The lineage holds in every run of consolidations and resolutions. -/
theorem lineage_invariant (env : Env) : Invariant env Op.IsConsolidationOrResolution
    (fun _ _ _ _ ↦ True) fun db ↦ db.OpenSets ∧ db.Lineage where
  empty := by
    refine ⟨(openSets_invariant env Op.IsConsolidationOrResolution).empty, ?_, ?_, ?_, ?_⟩
    · rintro a b ⟨f, hf, -⟩
      cases hf
    · intro a ha
      obtain ⟨b, ⟨f, hf, -⟩, -⟩ := Relation.TransGen.head'_iff.mp ha
      cases hf
    · rintro _ ⟨⟩
    · rintro _ ⟨⟩
  frame db events traces h :=
    ⟨(openSets_invariant env Op.IsConsolidationOrResolution).frame db events traces h.1,
      h.2.frame events _ traces⟩
  candidate now event db c result db' result' hu h _ ha :=
    ⟨applyCandidate_openSets hu h.1 ha, applyCandidate_lineage hu h.1 h.2 ha⟩
  other db op db' hop hallowed hu h he := by
    refine ⟨(openSets_invariant env Op.IsConsolidationOrResolution).other db op db' hop hallowed hu
      h.1 he, ?_⟩
    cases op with
    | resolve now projectId id keep =>
      obtain ⟨conflict, db₁, hc, ho, hk, hwalk, rfl⟩ := resolveConflict_eq_ok he
      obtain ⟨hs, rfl⟩ := Table.get?_eq_some_iff.mp hc
      exact h.2.resolve h.1 hs ho hk hwalk
    | capture | consolidate | serve => exact absurd trivial hop
    | forgetFact | forgetSubject | feedback => exact hallowed.elim

/-! ## Versions and links along a run -/

/-- The fact with its version never going back, and going up when its status changes. -/
structure Fact.Advances (f f' : Fact) : Prop where
  id : f'.id = f.id
  version : f.version ≤ f'.version
  transition : f'.status ≠ f.status → f.version < f'.version

/-- The link of `f` is overwritten: `f` loses in a resolution of an open set. -/
def Fact.Overwritten (db : Db) (w : Write) (f f' : Fact) : Prop :=
  ∃ now projectId keep, ∃ s ∈ db.conflictSets, w = .other (.resolve now projectId s.id keep) ∧
    s.status = .open ∧ f.id ∈ s.factIds ∧ keep ∈ s.factIds ∧ f.id ≠ keep ∧ f.status.Losing ∧
    f'.status = .superseded ∧ f'.supersedesId = some keep

theorem Effect.onFact_advances (e : Effect) (f : Fact) : f.Advances (e.onFact env event f) := by
  rcases @Effect.onFact_cases env event e f with h | ⟨_, -, -, h⟩ | ⟨_, _, _, -, -, h⟩
  · rw [h]
    exact ⟨rfl, le_rfl, fun hne ↦ absurd rfl hne⟩
  · rw [h]
    exact ⟨rfl, Nat.le_succ _, fun _ ↦ Nat.lt_succ_self _⟩
  · rw [h, Fact.asOccurrence]
    split
    · exact ⟨rfl, le_rfl, fun hne ↦ absurd rfl hne⟩
    · exact ⟨rfl, Nat.le_succ _, fun _ ↦ Nat.lt_succ_self _⟩

/-- A write advances every fact, and keeps its link unless it is overwritten. -/
theorem Write.Does.advances {w : Write} (hw : w.Allowed Op.IsConsolidationOrResolution db)
    (hu : db.UniqueActive) (h : w.Does env db db') :
    ∀ f ∈ db.facts, ∃ f' ∈ db'.facts, f.Advances f' ∧
      (f'.supersedesId = f.supersedesId ∨ f.Overwritten db w f') := by
  intro f hf
  have same : f.Advances f := ⟨rfl, le_rfl, fun hne ↦ absurd rfl hne⟩
  cases h with
  | frame => exact ⟨f, hf, same, .inl rfl⟩
  | candidate h =>
    cases applyCandidate_applied hu h with
    | counted => exact ⟨f, hf, same, .inl rfl⟩
    | reinforced =>
      refine ⟨_, mem_reinforced.mpr ⟨f, hf, rfl⟩, ?_⟩
      split
      · exact ⟨⟨rfl, le_rfl, fun hne ↦ absurd rfl hne⟩, .inl rfl⟩
      · exact ⟨same, .inl rfl⟩
    | written aliases c' existing row e _ hadj =>
      exact ⟨_, (Effect.mem_apply hadj.fresh).mpr (.inl ⟨f, hf, rfl⟩), e.onFact_advances f,
        .inl (e.onFact_supersedesId f)⟩
  | @other op _ hop h =>
    cases op with
    | resolve now projectId id keep =>
      obtain ⟨s, db₁, hc, ho, hk, hwalk, rfl⟩ := resolveConflict_eq_ok h
      obtain ⟨hs, rfl⟩ := Table.get?_eq_some_iff.mp hc
      obtain ⟨f', hf', hr⟩ := resolveMembers_resolves hwalk f hf
      refine ⟨f', hf', ?_⟩
      cases hr with
      | same => exact ⟨same, .inl rfl⟩
      | kept => exact ⟨⟨rfl, Nat.le_succ _, fun _ ↦ Nat.lt_succ_self _⟩, .inl rfl⟩
      | lost hmem hid hlosing =>
        exact ⟨⟨rfl, Nat.le_succ _, fun _ ↦ Nat.lt_succ_self _⟩,
          .inr ⟨now, projectId, keep, s, hs, rfl, ho, hmem, hk, hid, hlosing, rfl, rfl⟩⟩
    | capture | consolidate | serve => exact absurd trivial hop
    | forgetFact | forgetSubject | feedback => exact hw.elim

/-- **Lineage.**  In every ledger written by consolidations and resolutions, the links are acyclic,
no fact ends before it starts, and the next write advances every fact and keeps its link, unless
the fact loses in the resolution of an open set. -/
theorem ledger_lineage (h : Written env (Write.Allowed Op.IsConsolidationOrResolution) db) :
    Acyclic db.Links ∧ (∀ f ∈ db.facts, f.ValidInterval) ∧
      ∀ w db', w.Allowed Op.IsConsolidationOrResolution db → w.Does env db db' →
        ∀ f ∈ db.facts, ∃ f' ∈ db'.facts, f.Advances f' ∧
          (f'.supersedesId = f.supersedesId ∨ f.Overwritten db w f') := by
  obtain ⟨-, hl⟩ := (lineage_invariant env).written h
  exact ⟨hl.acyclic, hl.intervals, fun w db' hw hdoes ↦ hdoes.advances hw h.unique⟩

/-- `Lyon` is replaced by `Nice`, and `Paris` contradicts `Nice`. -/
def Sample.replaced : List Op :=
  observe (Sample.event 1 .trusted) [create "city" "Lyon"] ++
    observe (Sample.event 2 .trusted) [supersede "city" "Nice"] ++
    observe (Sample.event 3 .trusted) [create "city" "Paris"]

theorem Sample.replaced_reachable :
    Reachable .sample Op.IsConsolidationOrResolution (runOps .sample .empty replaced) :=
  ⟨_, by simp [replaced, observe, Op.IsConsolidationOrResolution], rfl⟩

/-- The lineage of a fact that was replaced and one that was contradicted. -/
theorem ledger_lineage_replaced :
    Acyclic (runOps .sample .empty Sample.replaced).Links ∧
      (∀ f ∈ (runOps .sample .empty Sample.replaced).facts, f.ValidInterval) ∧
      ∀ w db', w.Allowed Op.IsConsolidationOrResolution (runOps .sample .empty Sample.replaced) →
        w.Does .sample (runOps .sample .empty Sample.replaced) db' →
        ∀ f ∈ (runOps .sample .empty Sample.replaced).facts, ∃ f' ∈ db'.facts, f.Advances f' ∧
          (f'.supersedesId = f.supersedesId ∨
            f.Overwritten (runOps .sample .empty Sample.replaced) w f') :=
  ledger_lineage Sample.replaced_reachable.written

/-- `Nice` points at `Lyon`; when `Paris` is kept, it points at `Paris` instead. -/
theorem link_overwritten :
    ∃ (db : Db) (op : Op) (db' : Db), Reachable .sample Op.IsConsolidationOrResolution db ∧
      op.IsConsolidationOrResolution ∧ op.exec .sample db = .ok db' ∧
      ∃ f ∈ db.facts, ∃ f' ∈ db'.facts, f'.id = f.id ∧ f.supersedesId.isSome ∧
        f'.supersedesId ≠ f.supersedesId := by
  have h : ∃ db' ∈ ((Op.resolve 4 "project" ⟨3, 0⟩ ⟨3, 0⟩).exec .sample
      (runOps .sample .empty Sample.replaced)).toOption,
      ∃ f ∈ (runOps .sample .empty Sample.replaced).facts, ∃ f' ∈ db'.facts, f'.id = f.id ∧
        f.supersedesId.isSome ∧ f'.supersedesId ≠ f.supersedesId := by decide +kernel
  obtain ⟨db', hok, h⟩ := h
  exact ⟨_, .resolve 4 "project" ⟨3, 0⟩ ⟨3, 0⟩, db', Sample.replaced_reachable, trivial,
    toOption_eq_some.mp hok, h⟩

end Haki
