import Haki.System

/-!
# Open conflict sets in every reachable ledger

Whatever the operations, a fact is in at most one open set, a member is of the
scope of its set, and at most one member of an open set is active.  No
condition on the candidates is needed: a set is opened around a fact that is in
none, a newcomer is in no set yet, and an overflow closes the set it activates.
-/

namespace Haki

open Data Control

/-- The shape of the open conflict sets. -/
structure Db.OpenSets (db : Db) : Prop where
  /-- A member is of the scope of the set. -/
  scope : ∀ s ∈ db.conflictSets, s.status = .open → ∀ f ∈ db.facts, f.id ∈ s.factIds →
    f.scope = s.scope
  /-- No fact is in two open sets. -/
  apart : ∀ s ∈ db.conflictSets, ∀ t ∈ db.conflictSets, s.status = .open → t.status = .open →
    ∀ id ∈ s.factIds, id ∈ t.factIds → s = t
  /-- At most one member is active. -/
  served : ∀ s ∈ db.conflictSets, s.status = .open → ∀ f ∈ db.facts, ∀ g ∈ db.facts,
    f.status = .active → g.status = .active → f.id ∈ s.factIds → g.id ∈ s.factIds → f = g

variable {env : Env} {db db' : Db} {event : Event} {c c' : Candidate} {existing : Option Fact}
  {row : Fact} {e : Effect}

namespace Db.OpenSets

/-- Retiring facts keeps the shape. -/
theorem retires (h : db.OpenSets) (hr : db.Retires db') : db'.OpenSets where
  scope s hs ho f' hf' hid := by
    obtain ⟨f, hf, hid', hscope, -⟩ := hr.facts f' hf'
    exact hscope ▸ h.scope s (hr.conflictSets s hs) ho f hf (hid' ▸ hid)
  apart s hs t ht := h.apart s (hr.conflictSets s hs) t (hr.conflictSets t ht)
  served s hs ho f' hf' g' hg' haf hag hfs hgs := by
    obtain ⟨f, hf, hidf, -, -, hactf⟩ := hr.facts f' hf'
    obtain ⟨g, hg, hidg, -, -, hactg⟩ := hr.facts g' hg'
    have hfg : f = g := h.served s (hr.conflictSets s hs) ho f hf g hg (hactf haf) (hactg hag)
      (hidf ▸ hfs) (hidg ▸ hgs)
    exact eq_of_id_eq hf' hg' (by rw [← hidf, ← hidg, hfg])

/-- A set that is open after another one is resolved was open before, and its members are
untouched. -/
theorem open_resolve (h : db.OpenSets) {s t : ConflictSet} {now : Timestamp}
    (hs : s ∈ db.conflictSets) (ho : s.status = .open) (hm : db.Moves s.factIds db')
    (ht : t ∈ (db'.updateConflictSet s.id (·.resolve now)).conflictSets) (hto : t.status = .open) :
    t ∈ db.conflictSets ∧ ∀ id ∈ t.factIds, db'.fact? id = db.fact? id := by
  obtain ⟨t₀, ht₀, rfl⟩ := (Table.mem_update fun t _ ↦ t.resolve_id now).mp ht
  rw [hm.conflictSets] at ht₀
  split at hto
  · cases hto
  · next hne =>
    rw [if_neg hne]
    exact ⟨ht₀, fun id hid ↦ hm.other id fun hids ↦
      hne (h.apart t₀ ht₀ s hs hto ho id hid hids ▸ rfl)⟩

/-- Resolving a set keeps the shape: its members are in no other open set. -/
theorem resolve (h : db.OpenSets) {s : ConflictSet} {now : Timestamp} (hs : s ∈ db.conflictSets)
    (ho : s.status = .open) (hm : db.Moves s.factIds db') :
    (db'.updateConflictSet s.id (·.resolve now)).OpenSets := by
  have other {t : ConflictSet} (ht : t ∈ (db'.updateConflictSet s.id (·.resolve now)).conflictSets)
      (hto : t.status = .open) :
      t ∈ db.conflictSets ∧ ∀ f ∈ db'.facts, f.id ∈ t.factIds → f ∈ db.facts := by
    obtain ⟨ht, hsame⟩ := h.open_resolve hs ho hm ht hto
    exact ⟨ht, fun f hf hid ↦ mem_of_fact? ((hsame f.id hid).symm.trans (fact?_of_mem hf))⟩
  refine ⟨fun t ht hto f hf hid ↦ ?_, fun t ht u hu hto huo ↦ ?_, fun t ht hto f hf g hg haf hag
    hft hgt ↦ ?_⟩
  · obtain ⟨ht, hmem⟩ := other ht hto
    exact h.scope t ht hto f (hmem f hf hid) hid
  · exact h.apart t (other ht hto).1 u (other hu huo).1 hto huo
  · obtain ⟨ht, hmem⟩ := other ht hto
    exact h.served t ht hto f (hmem f hf hft) g (hmem g hg hgt) haf hag hft hgt

/-- The open set of a matched fact is the one the adjudicator finds. -/
theorem notMem_of_none (h : db.OpenSets) {old : Fact} (hold : old ∈ db.facts)
    (hscope : old.scope = event.scope) (hnone : db.openConflictSet event.scope old.id = none)
    {s : ConflictSet} (hs : s ∈ db.conflictSets) (ho : s.status = .open) : old.id ∉ s.factIds :=
  fun hid ↦ openConflictSet_none hnone hs ((h.scope s hs ho old hold hid).symm.trans hscope) ho hid

/-- A member of an open set that does not overflow is unchanged, or replaced. -/
theorem onFact_of_open (h : db.OpenSets) (hadj : Adjudicated env db event c c' existing row e)
    {f : Fact} {s : ConflictSet} (hs : s ∈ db.conflictSets) (ho : s.status = .open)
    (hid : f.id ∈ s.factIds) (hne : ∀ old s₀ other, e = .overflow old s₀ other → s ≠ s₀) :
    e.onFact env event f = f ∨ ∃ old, e = .replace old ∧ f.id = old.id ∧
      e.onFact env event f = f.closedAt (closingTime old event) env.now := by
  rcases @Effect.onFact_cases env event e f with
    he | ⟨old, he, hid, hf⟩ | ⟨old, s₀, other, rfl, hmem, -⟩
  · exact .inl he
  · exact .inr ⟨old, he, hid, hf⟩
  · obtain ⟨_, hcontra, rfl, hfull, otherId, hfind, rfl, -⟩ := hadj.guard
    obtain ⟨hs₀, -, ho₀, hold⟩ := openConflictSet_some hfull.openSet
    refine absurd (h.apart s hs s₀ hs₀ ho ho₀ f.id hid ?_) (hne _ _ _ rfl)
    rcases hmem with hmem | ⟨o, hother, hmem⟩
    · exact hmem ▸ hold
    · rw [hmem, id_of_fact? hother]
      exact List.mem_of_find?_eq_some hfind

/-- An open set after an effect was there before, possibly without the new row, or is new. -/
theorem open_onSets (h : db.OpenSets) (hadj : Adjudicated env db event c c' existing row e)
    {s' : ConflictSet} (hs : s' ∈ (e.apply env event db row).conflictSets)
    (ho : s'.status = .open) :
    (∃ s ∈ db.conflictSets, s.status = .open ∧ s.id = s'.id ∧ s.scope = s'.scope ∧
      s.kind = s'.kind ∧ (∀ old s₀ other, e = .overflow old s₀ other → s ≠ s₀) ∧
      (s' = s ∨ (e = .joinConflict s ∧ s' = s.extend row.id))) ∨
    (e = .hold ∧ s' = newConflictSet env db event [row.id] .quarantine) ∨
    (∃ old, e = .openConflict old ∧ existing = some old ∧
      s' = newConflictSet env db event [old.id, row.id] .contradiction ∧
      ∀ s ∈ db.conflictSets, s.status = .open → old.id ∉ s.factIds) := by
  rcases hadj.mem_onSets hs with ⟨hold, hne⟩ | hnew | ⟨old, rfl, hnew⟩ | ⟨s, hold, rfl, rfl⟩ |
    ⟨s, -, old, other, rfl, rfl⟩
  · exact .inl ⟨s', hold, ho, rfl, rfl, rfl, hne, .inl rfl⟩
  · exact .inr (.inl hnew)
  · obtain ⟨_, hcontra, rfl, hnone⟩ := hadj.guard
    obtain ⟨hold, hscope, -⟩ := hadj.active old hcontra.matched
    exact .inr (.inr ⟨old, rfl, hcontra.matched, hnew,
      fun s hs ho ↦ h.notMem_of_none hold hscope hnone hs ho⟩)
  · exact .inl ⟨s, hold, ho, rfl, rfl, rfl, by rintro _ _ _ ⟨⟩, .inr ⟨rfl, rfl⟩⟩
  · cases ho

/-- Where the ids of an open set after an effect come from: a set with the same id from before and
possibly the new row, or no open set. -/
theorem mem_open_onSets (h : db.OpenSets) (hadj : Adjudicated env db event c c' existing row e)
    {s' : ConflictSet} (hs : s' ∈ (e.apply env event db row).conflictSets)
    (ho : s'.status = .open) :
    (∃ s ∈ db.conflictSets, s.status = .open ∧ s.id = s'.id ∧
      ∀ id ∈ s'.factIds, id ∈ s.factIds ∨ (id = row.id ∧ e = .joinConflict s)) ∨
    (s'.id = db.freshConflictId event.id ∧ (∀ s, e ≠ .joinConflict s) ∧
      ∀ id ∈ s'.factIds, ∀ s ∈ db.conflictSets, s.status = .open → id ∉ s.factIds) := by
  rcases h.open_onSets hadj hs ho with
    ⟨s, hold, hos, hid, -, -, -, rfl | ⟨rfl, rfl⟩⟩ | ⟨rfl, rfl⟩ | ⟨old, rfl, -, rfl, hnone⟩
  · exact .inl ⟨s', hold, hos, hid, fun id hid ↦ .inl hid⟩
  · refine .inl ⟨s, hold, hos, hid, fun id hid ↦ ?_⟩
    exact (List.mem_append.mp hid).imp_right fun hid ↦ ⟨List.mem_singleton.mp hid, rfl⟩
  · refine .inr ⟨rfl, by simp, fun id hid s hs _ ↦ ?_⟩
    rw [List.mem_singleton.mp hid]
    exact hadj.notMem_set hs
  · refine .inr ⟨rfl, by simp, fun id hid s hs hos ↦ ?_⟩
    rcases List.mem_pair.mp hid with rfl | rfl
    · exact hnone s hs hos
    · exact hadj.notMem_set hs

/-- No fact is in two open sets after an effect. -/
theorem apart_apply (h : db.OpenSets) (hadj : Adjudicated env db event c c' existing row e)
    {s' t' : ConflictSet} (hs' : s' ∈ (e.apply env event db row).conflictSets)
    (ht' : t' ∈ (e.apply env event db row).conflictSets) (ho : s'.status = .open)
    (hto : t'.status = .open) {id : FactId} (hids : id ∈ s'.factIds) (hidt : id ∈ t'.factIds) :
    s' = t' := by
  -- It is enough that both have one id.
  refine Table.eq_of_key_eq hs' ht' ?_
  rcases h.mem_open_onSets hadj hs' ho with ⟨s, hs, hos, hsid, hsmem⟩ | ⟨hsid, hne, hnew⟩ <;>
    rcases h.mem_open_onSets hadj ht' hto with ⟨t, ht, hot, htid, htmem⟩ | ⟨htid, hne', hnew'⟩
  · suffices s = t by rw [key_conflictSet, key_conflictSet, ← hsid, ← htid, this]
    rcases hsmem id hids with hmem | ⟨rfl, he⟩
    · rcases htmem id hidt with hmem' | ⟨rfl, -⟩
      · exact h.apart s hs t ht hos hot id hmem hmem'
      · exact absurd hmem (hadj.notMem_set hs)
    · rcases htmem row.id hidt with hmem' | ⟨-, he'⟩
      · exact absurd hmem' (hadj.notMem_set ht)
      · exact Effect.joinConflict.inj (he.symm.trans he')
  · rcases hsmem id hids with hmem | ⟨-, he⟩
    · exact absurd hmem (hnew' id hidt s hs hos)
    · exact absurd he (hne' s)
  · rcases htmem id hidt with hmem | ⟨-, he⟩
    · exact absurd hmem (hnew id hids t ht hot)
    · exact absurd he (hne t)
  · exact hsid.trans htid.symm

/-- An active member of an open set after an effect was an active member before, or it is the
matched fact in a set that was opened around it. -/
theorem active_apply (h : db.OpenSets) (hadj : Adjudicated env db event c c' existing row e)
    {s' : ConflictSet} (hs' : s' ∈ (e.apply env event db row).conflictSets) (ho : s'.status = .open)
    {f' : Fact} (hf' : f' ∈ (e.apply env event db row).facts) (ha : f'.status = .active)
    (hid : f'.id ∈ s'.factIds) :
    (∃ s ∈ db.conflictSets, s.status = .open ∧ s.id = s'.id ∧ f' ∈ db.facts ∧ f'.id ∈ s.factIds) ∨
      (s'.id = db.freshConflictId event.id ∧ existing = some f') := by
  -- The new row stays a candidate whenever it enters an open set.
  have not_row (hrow : e.onRow env row = row) : f'.id ≠ row.id := by
    rcases hadj.mem_apply hf' with ⟨f, hf, -, hid', -⟩ | ⟨rfl, -, -⟩
    · exact hid' ▸ hadj.fresh f hf
    · rw [hrow, hadj.status] at ha
      cases ha
  have unchanged {s : ConflictSet} (hs : s ∈ db.conflictSets) (hos : s.status = .open)
      (hid : f'.id ∈ s.factIds) (hne : ∀ old s₀ other, e = .overflow old s₀ other → s ≠ s₀) :
      f' ∈ db.facts := by
    rcases hadj.mem_apply hf' with ⟨f, hf, rfl, hid', -⟩ | ⟨-, hid', -⟩
    · rcases h.onFact_of_open hadj hs hos (hid' ▸ hid) hne with he | ⟨old, -, -, he⟩
      · exact he.symm ▸ hf
      · rw [he] at ha
        cases ha
    · exact absurd (hid' ▸ hid) (hadj.notMem_set hs)
  rcases h.open_onSets hadj hs' ho with
    ⟨s, hs, hos, hsid, -, -, hne, rfl | ⟨rfl, rfl⟩⟩ | ⟨rfl, rfl⟩ | ⟨old, rfl, hx, rfl, hnone⟩
  · exact .inl ⟨s', hs, hos, rfl, unchanged hs hos hid hne, hid⟩
  · have hid := (List.mem_append.mp hid).resolve_right fun h ↦ not_row rfl (List.mem_singleton.mp h)
    exact .inl ⟨s, hs, hos, rfl, unchanged hs hos hid hne, hid⟩
  · exact absurd (List.mem_singleton.mp hid) (not_row rfl)
  · have hid := (List.mem_pair.mp hid).resolve_right (not_row rfl)
    refine .inr ⟨rfl, ?_⟩
    rcases hadj.mem_apply hf' with ⟨f, hf, rfl, hid', -⟩ | ⟨-, hid', -⟩
    · exact hx.trans (congrArg some (eq_of_id_eq (hadj.active old hx).1 hf hid.symm))
    · exact absurd hid' (not_row rfl)

/-- Applying an effect keeps the shape. -/
theorem apply (h : db.OpenSets) (hadj : Adjudicated env db event c c' existing row e) :
    (e.apply env event db row).OpenSets := by
  refine ⟨fun s' hs' ho f' hf' hid ↦ ?_, fun s' hs' t' ht' ho hto id ↦ h.apart_apply hadj hs' ht'
    ho hto, fun s' hs' ho f' hf' g' hg' haf hag hfs hgs ↦ ?_⟩
  · rcases hadj.mem_apply hf' with ⟨f, hf, -, hid', hcontent⟩ | ⟨-, hid', hcontent⟩
    · have hne : f'.id ≠ row.id := hid' ▸ hadj.fresh f hf
      rw [← Fact.scope_of_content hcontent]
      rcases h.open_onSets hadj hs' ho with
        ⟨s, hs, hos, -, hscope, -, -, rfl | ⟨-, rfl⟩⟩ | ⟨-, rfl⟩ | ⟨old, -, hx, rfl, -⟩
      · exact h.scope s' hs hos f hf (hid' ▸ hid)
      · have hid := (List.mem_append.mp hid).resolve_right fun h ↦ hne (List.mem_singleton.mp h)
        exact h.scope s hs hos f hf (hid' ▸ hid)
      · exact absurd (List.mem_singleton.mp hid) hne
      · obtain ⟨hold, hscope, -⟩ := hadj.active old hx
        have hid := (List.mem_pair.mp hid).resolve_right hne
        rw [eq_of_id_eq hf hold (hid'.trans hid)]
        exact hscope
    · rw [Fact.scope_of_content hcontent, hadj.scope]
      rcases h.open_onSets hadj hs' ho with
        ⟨s, hs, -, -, -, -, -, rfl | ⟨rfl, rfl⟩⟩ | ⟨-, rfl⟩ | ⟨old, -, hx, rfl, -⟩
      · exact absurd (hid' ▸ hid) (hadj.notMem_set hs)
      · obtain ⟨_, -, hopen, -⟩ := hadj.guard
        exact (openConflictSet_some hopen).2.1.symm
      · rfl
      · rfl
  · rcases h.active_apply hadj hs' ho hf' haf hfs with
      ⟨s, hs, hos, hsid, hf, hmemf⟩ | ⟨hsid, hxf⟩ <;>
    rcases h.active_apply hadj hs' ho hg' hag hgs with
      ⟨t, ht, hot, htid, hg, hmemg⟩ | ⟨htid, hxg⟩
    · obtain rfl := Table.eq_of_key_eq hs ht (hsid.trans htid.symm)
      exact h.served s hs hos f' hf g' hg haf hag hmemf hmemg
    · exact absurd (hsid.trans htid) (db.freshConflictId_ne event.id hs)
    · exact absurd (htid.trans hsid) (db.freshConflictId_ne event.id ht)
    · exact Option.some.inj (hxf.symm.trans hxg)

end Db.OpenSets

theorem Db.retires_reinforced (db : Db) (event : Event) (id : FactId) :
    db.Retires (db.updateFact id (·.reinforcedBy event)) := by
  refine ⟨fun g' hg' ↦ ?_, fun s hs ↦ hs⟩
  obtain ⟨g, hg, rfl⟩ := mem_reinforced.mp hg'
  exact ⟨g, hg, by split <;> exact ⟨rfl, rfl, rfl, fun ha ↦ ha⟩⟩

/-- Applying a candidate keeps the shape of the open sets. -/
theorem applyCandidate_openSets {embedding : Embedding} {result result' : JobResult}
    (hu : db.UniqueActive) (h : db.OpenSets)
    (ha : applyCandidate env db c embedding event result = .ok (db', result')) : db'.OpenSets := by
  cases applyCandidate_applied hu ha with
  | counted => exact ⟨h.scope, h.apart, h.served⟩
  | reinforced aliases f =>
    have h' := h.retires (Db.retires_reinforced db event f.id)
    exact ⟨h'.scope, h'.apart, h'.served⟩
  | written aliases c' existing row e _ hadj =>
    have h' := h.apply hadj
    exact ⟨h'.scope, h'.apart, h'.served⟩

/-- The shape holds in every run. -/
theorem openSets_invariant (env : Env) (allowed : Op → Prop) :
    Invariant env allowed (fun _ _ _ _ ↦ True) Db.OpenSets where
  empty := ⟨by rintro _ ⟨⟩, by rintro _ ⟨⟩, by rintro _ ⟨⟩⟩
  frame db events traces h := ⟨h.scope, h.apart, h.served⟩
  candidate now event db c result db' result' hu h _ ha := applyCandidate_openSets hu h ha
  other db op db' hop _ hu h he := by
    by_cases hres : op.IsNotResolution
    · exact h.retires (Op.exec_retires hop hres he)
    · cases op with
      | resolve now projectId id keep =>
        obtain ⟨conflict, db₁, hc, ho, -, hm, rfl⟩ := resolveConflict_eq_ok he
        obtain ⟨hs, rfl⟩ := Table.get?_eq_some_iff.mp hc
        exact h.resolve hs ho (resolveMembers_moves hm)
      | _ => exact absurd trivial hres

/-- **Open sets.**  In every reachable ledger, open sets are apart and serve at most one fact. -/
theorem Reachable.openSets {allowed : Op → Prop} (h : Reachable env allowed db) : db.OpenSets :=
  ((openSets_invariant env allowed).reachable h).2

end Haki
