import Haki.Data.Evidence
import Haki.Sample

/-!
# Reinforcement

Events that say an active fact again are counted, dated and listed on it.  The
three accumulators are the evidence of the fact, so the order of the events
does not matter, and each counts once.  The clock of freshness falls back on
two other columns as long as there is no date, so the first date can lie before
it.
-/

namespace Haki

open Data Control

variable {env : Env} {db db' : Db} {f g : Fact} {event : Event} {events events' : List Event}

/-- One event says the fact again. -/
def Db.reassert (id : FactId) (db : Db) (event : Event) : Db :=
  match db.fact? id with
  | some fact => (reinforceOrCountDuplicate db fact event {}).1
  | none => db

/-- The fact after the events, one after the other, have said it again. -/
def Db.reasserted (db : Db) (id : FactId) (events : List Event) : Option Fact :=
  (events.foldl (Db.reassert id) db).fact? id

/-! ## One fact -/

/-- What an event that says it again makes of a fact. -/
def Fact.reassertedBy (f : Fact) (event : Event) : Fact :=
  if f.status ≠ .active ∨ event.id ∈ f.sourceEventIds then f else f.reinforcedBy event

@[simp] theorem Fact.reassertedBy_id (f : Fact) (event : Event) :
    (f.reassertedBy event).id = f.id := by
  rw [Fact.reassertedBy]
  split <;> rfl

@[simp] theorem Fact.reassertedBy_status (f : Fact) (event : Event) :
    (f.reassertedBy event).status = f.status := by
  rw [Fact.reassertedBy]
  split <;> rfl

@[simp] theorem Fact.reassertedBy_originTrust (f : Fact) (event : Event) :
    (f.reassertedBy event).originTrust = f.originTrust := by
  rw [Fact.reassertedBy]
  split <;> rfl

theorem Db.fact?_reassert (hf : db.fact? f.id = some f) (event : Event) :
    (db.reassert f.id event).fact? f.id = some (f.reassertedBy event) := by
  rw [Db.reassert, hf]
  simp only [reinforceOrCountDuplicate, Fact.reassertedBy]
  split
  · exact hf
  · rw [Db.fact?_updateFact (·.reinforcedBy_id event), if_pos rfl, hf]
    rfl

theorem Db.reasserted_eq (hf : db.fact? f.id = some f) (events : List Event) :
    db.reasserted f.id events = some (events.foldl Fact.reassertedBy f) := by
  induction events generalizing db f with
  | nil => exact hf
  | cons event events ih =>
    have h := Db.fact?_reassert hf event
    rw [← f.reassertedBy_id event] at h
    have htail := ih h
    rw [Fact.reassertedBy_id] at htail
    exact htail

/-- The states of the fact along the events. -/
theorem Db.scanl_reassert (hf : db.fact? f.id = some f) (events : List Event) :
    (events.scanl (Db.reassert f.id) db).filterMap (·.fact? f.id) =
      events.scanl Fact.reassertedBy f := by
  induction events generalizing db f with
  | nil => simp [hf]
  | cons event events ih =>
    have h := Db.fact?_reassert hf event
    rw [← f.reassertedBy_id event] at h
    have htail := ih h
    rw [Fact.reassertedBy_id] at htail
    rw [List.scanl_cons, List.scanl_cons,
      List.filterMap_cons_some (f := fun db : Db ↦ db.fact? f.id) hf, htail]

/-! ## The evidence of a fact -/

/-- The counter, the date and the sources of a fact. -/
def Fact.evidence (f : Fact) : Evidence EventId Timestamp :=
  ⟨f.reinforcementCount, f.lastReinforcedAt, f.sourceEventIds.toFinset⟩

/-- The date an event gives a fact of this origin: one of a lower rank gives none. -/
def Event.dateFor (trust : OriginTrust) (event : Event) : Option Timestamp :=
  if trust.rank ≤ event.originTrust.rank then some event.occurredAt else none

theorem Event.dateFor_isSome {trust : OriginTrust} :
    (event.dateFor trust).isSome = decide (trust.rank ≤ event.originTrust.rank) := by
  rw [Event.dateFor]
  split
  · next h => exact (decide_eq_true h).symm
  · next h => exact (decide_eq_false h).symm

theorem Fact.evidence_reassertedBy (ha : f.status = .active) (event : Event) :
    (f.reassertedBy event).evidence = f.evidence.add event.id (event.dateFor f.originTrust) := by
  by_cases hmem : event.id ∈ f.sourceEventIds
  · rw [Fact.reassertedBy, if_pos (.inr hmem)]
    exact (Evidence.add_of_mem (List.mem_toFinset.mpr hmem)).symm
  · have hnew : event.id ∉ f.evidence.sources := fun h ↦ hmem (List.mem_toFinset.mp h)
    rw [Fact.reassertedBy, if_neg (not_or.mpr ⟨not_not.mpr ha, hmem⟩), Evidence.add_of_notMem hnew]
    ext1
    · rfl
    · simp only [Fact.evidence, Fact.reinforcedBy, Event.dateFor]
      by_cases hrank : f.originTrust.rank ≤ event.originTrust.rank
      · simp only [hrank, true_and, if_true]
        rfl
      · simp only [hrank, false_and, if_false]
        rfl
    · exact (List.toFinset_append).trans (by simp [Fact.evidence])

theorem Fact.evidence_foldl (ha : f.status = .active) (events : List Event) :
    (events.foldl Fact.reassertedBy f).evidence =
      f.evidence.gather Event.id (Event.dateFor f.originTrust) events := by
  induction events generalizing f with
  | nil => rfl
  | cons event events ih =>
    rw [List.foldl_cons, ih ((f.reassertedBy_status event).trans ha), Evidence.gather_cons,
      Fact.evidence_reassertedBy ha, Fact.reassertedBy_originTrust]

/-! ## Order and number -/

/-- Every source of the fact is listed once, and every one but the first is counted. -/
structure Fact.Counted (f : Fact) : Prop where
  nodup : f.sourceEventIds.Nodup
  count : f.reinforcementCount + 1 = f.sourceEventIds.length

theorem Fact.Counted.of_eq (h : f.Counted) (hs : g.sourceEventIds = f.sourceEventIds)
    (hc : g.reinforcementCount = f.reinforcementCount) : g.Counted :=
  ⟨hs ▸ h.nodup, by rw [hc, hs]; exact h.count⟩

theorem Fact.Counted.reinforcedBy (h : f.Counted) (hnew : event.id ∉ f.sourceEventIds) :
    (f.reinforcedBy event).Counted := by
  refine ⟨List.nodup_append'.mpr ⟨h.nodup, List.nodup_singleton _, ?_⟩, ?_⟩
  · exact List.disjoint_singleton.mpr hnew
  · simp only [Fact.reinforcedBy, List.length_append, List.length_singleton, ← h.count]

theorem Fact.Counted.reassertedBy (h : f.Counted) (event : Event) : (f.reassertedBy event).Counted := by
  rw [Fact.reassertedBy]
  split
  · exact h
  · next hnew => exact h.reinforcedBy (not_or.mp hnew).2

theorem Fact.Counted.foldl (h : f.Counted) (events : List Event) :
    (events.foldl Fact.reassertedBy f).Counted := by
  induction events generalizing f with
  | nil => exact h
  | cons event events ih => exact ih (h.reassertedBy event)

/-- A new row lists the event it comes from. -/
theorem candidateRow_counted {c : Candidate} {existing : Option Fact} {embedding : Embedding}
    (h : candidateRow env db c existing embedding event = .ok f) : f.Counted := by
  obtain ⟨temporalRange, observedAt, rfl⟩ := candidateRow_eq_ok h
  exact ⟨List.nodup_singleton _, rfl⟩

theorem counted_of_content (h : f.Counted) (hc : g.content = f.content) : g.Counted :=
  h.of_eq (congrArg Fact.sourceEventIds hc : g.content.sourceEventIds = f.content.sourceEventIds)
    (congrArg Fact.reinforcementCount hc :
      g.content.reinforcementCount = f.content.reinforcementCount)

/-- The facts of the ledger are counted. -/
def Db.Counted (db : Db) : Prop := ∀ f ∈ db.facts, f.Counted

theorem Db.Counted.updateFact (h : db.Counted) {id : FactId} {k : Fact → Fact}
    (hid : ∀ f, (k f).id = f.id) (hk : ∀ f ∈ db.facts, f.id = id → f.Counted → (k f).Counted) :
    (db.updateFact id k).Counted := by
  intro f' hf'
  obtain ⟨f, hf, rfl⟩ := (Db.mem_updateFact hid).mp hf'
  split
  · next hfid => exact hk f hf hfid (h f hf)
  · exact h f hf

theorem applyCandidate_counted {c : Candidate} {embedding : Embedding} {result result' : JobResult}
    (hu : db.UniqueActive) (h : db.Counted)
    (ha : applyCandidate env db c embedding event result = .ok (db', result')) : db'.Counted := by
  cases hm : (matchCandidate env db c embedding event).1 with
  | duplicate old =>
    cases applyCandidate_applied hu ha with
    | counted => exact h
    | reinforced aliases old _ hdup _ hnew =>
      have hold : (db.updateFact old.id (·.reinforcedBy event)).Counted :=
        h.updateFact (·.reinforcedBy_id event) fun f hf hid hcounted ↦ by
          obtain rfl := Db.eq_of_id_eq hf hdup.mem hid
          exact hcounted.reinforcedBy hnew
      exact hold
    | written _ _ _ _ _ hm' => cases hm.symm.trans hm'
  | against c' existing =>
    obtain ⟨aliases, row, e, hrow, -, -, rfl, -⟩ := applyCandidate_written hu hm ha
    intro f' hf'
    rcases (Effect.mem_apply (candidateRow_fresh hrow)).mp hf' with ⟨f, hf, rfl⟩ | rfl
    · exact counted_of_content (h f hf) (e.onFact_content f)
    · exact counted_of_content (candidateRow_counted hrow) (e.onRow_content row)

/-- Moving a member of a set leaves its evidence alone. -/
theorem resolveMember_counted {now : Timestamp} {keep id : FactId} (h : db.Counted)
    (hr : resolveMember now keep db id = .ok db') : db'.Counted := by
  rw [resolveMember] at hr
  split at hr
  · obtain ⟨-, -, ⟨-, rfl⟩ | ⟨-, -, -, rfl, -⟩⟩ := keepMember_eq_ok hr
    · exact h
    · exact h.updateFact (Fact.moveTo_id · _ now) fun f _ _ hf ↦ hf.of_eq rfl rfl
  · obtain ⟨-, -, ⟨-, rfl⟩ | ⟨-, rfl, -⟩⟩ := loseMember_eq_ok hr
    · exact h
    · exact h.updateFact (Fact.lostTo_id · keep now) fun f _ _ hf ↦ hf.of_eq rfl rfl

/-- Every fact is counted in every run. -/
theorem counted_invariant (env : Env) :
    Invariant env (fun _ ↦ True) (fun _ _ _ _ ↦ True) Db.Counted where
  empty := by rintro _ ⟨⟩
  frame db events traces h := h
  candidate now event db c result db' result' hu h _ ha := applyCandidate_counted hu h ha
  other db op db' hop _ hu h he := by
    by_cases hres : op.IsNotResolution
    · refine Op.exec_withdraws (fun db id k hk h ↦ ?_) (fun db scope h f hf ↦ ?_) hop hres h he
      · exact h.updateFact (fun f ↦ (hk f).id) fun f _ _ hf ↦
          hf.of_eq
            (congrArg Fact.sourceEventIds (hk f).record :
              (k f).record.sourceEventIds = f.record.sourceEventIds)
            (congrArg Fact.reinforcementCount (hk f).record :
              (k f).record.reinforcementCount = f.record.reinforcementCount)
      · exact h f (Table.mem_filter.mp hf).1
    · cases op with
      | resolve now projectId id keep =>
        obtain ⟨conflict, db₁, -, -, -, h₁, rfl⟩ := resolveConflict_eq_ok he
        have hcounted : db₁.Counted :=
          foldlM_preserves (fun _ _ _ ↦ resolveMember_counted) h h₁
        exact hcounted
      | _ => exact absurd trivial hres

/-- The evidence of a fact after the events. -/
theorem Fact.evidence_reasserted (ha : f.status = .active)
    (hid : ∀ x ∈ events, ∀ y ∈ events, x.id = y.id → x = y) {g : Fact}
    (hg : events.foldl Fact.reassertedBy f = g) :
    g.sourceEventIds.toFinset = f.sourceEventIds.toFinset ∪ (events.map Event.id).toFinset ∧
      g.reinforcementCount = f.reinforcementCount +
        ((events.map Event.id).toFinset \ f.sourceEventIds.toFinset).card ∧
      ∀ t, g.lastReinforcedAt = some t ↔ IsGreatest {t | f.lastReinforcedAt = some t ∨
        ∃ event ∈ events, event.id ∉ f.sourceEventIds ∧
          f.originTrust.rank ≤ event.originTrust.rank ∧ event.occurredAt = t} t := by
  have hev := Fact.evidence_foldl ha events
  rw [hg] at hev
  refine ⟨?_, ?_, fun t ↦ ?_⟩
  · have hsources := congrArg Evidence.sources hev
    rwa [Evidence.sources_gather] at hsources
  · have hcount := congrArg Evidence.count hev
    rwa [Evidence.count_gather_eq] at hcount
  · have hlatest : g.lastReinforcedAt = (f.evidence.gather Event.id (Event.dateFor f.originTrust)
        events).latest := congrArg Evidence.latest hev
    rw [hlatest, Evidence.latest_gather hid]
    simp only [Fact.evidence, List.mem_toFinset, Event.dateFor, Option.ite_none_right_eq_some,
      Option.some.injEq]

/-- **Reinforcement.**  Whatever the order in which the events of a ledger say an active fact
again, its counter, its date and its set of sources come out the same.  Every event becomes one of
the sources, every new one is counted once, and the date is the latest that was there or that a new
event of at least the fact's rank has, so that events of a lower rank do not date it.  In every
reachable ledger each source is listed once and each but the first is counted. -/
theorem reinforcement_order_independent (hf : f ∈ db.facts) (ha : f.status = .active)
    {ledger : Table Event} (hledger : ∀ event ∈ events, event ∈ ledger) :
    ∃ g, db.reasserted f.id events = some g ∧
      (∀ id, id ∈ g.sourceEventIds ↔ id ∈ f.sourceEventIds ∨ ∃ event ∈ events, event.id = id) ∧
      g.reinforcementCount = f.reinforcementCount +
        ((events.map Event.id).toFinset \ f.sourceEventIds.toFinset).card ∧
      (∀ t, g.lastReinforcedAt = some t ↔ IsGreatest {t | f.lastReinforcedAt = some t ∨
        ∃ event ∈ events, event.id ∉ f.sourceEventIds ∧
          f.originTrust.rank ≤ event.originTrust.rank ∧ event.occurredAt = t} t) ∧
      (∀ events', events'.Perm events → ∃ g', db.reasserted f.id events' = some g' ∧
        g'.reinforcementCount = g.reinforcementCount ∧ g'.lastReinforcedAt = g.lastReinforcedAt ∧
        ∀ id, id ∈ g'.sourceEventIds ↔ id ∈ g.sourceEventIds) ∧
      (∃ g', db.reasserted f.id
          (events.filter fun event ↦ f.originTrust.rank ≤ event.originTrust.rank) = some g' ∧
        g'.lastReinforcedAt = g.lastReinforcedAt) ∧
      ∀ env, Reachable env (fun _ ↦ True) db →
        g.sourceEventIds.Nodup ∧ g.reinforcementCount + 1 = g.sourceEventIds.toFinset.card := by
  have hget := Db.fact?_of_mem hf
  have hid : ∀ x ∈ events, ∀ y ∈ events, x.id = y.id → x = y := fun x hx y hy h ↦
    Table.eq_of_key_eq (hledger x hx) (hledger y hy) h
  obtain ⟨hsources, hcount, hlatest⟩ := Fact.evidence_reasserted ha hid rfl
  refine ⟨_, Db.reasserted_eq hget events, fun id ↦ ?_, hcount, hlatest, fun events' hperm ↦ ?_, ?_,
    fun env hreach ↦ ?_⟩
  · rw [← List.mem_toFinset, hsources, Finset.mem_union, List.mem_toFinset, List.mem_toFinset,
      List.mem_map]
  · have hsame : (events'.foldl Fact.reassertedBy f).evidence =
        (events.foldl Fact.reassertedBy f).evidence := by
      rw [Fact.evidence_foldl ha, Fact.evidence_foldl ha]
      exact (Evidence.gather_perm hid hperm.symm).symm
    refine ⟨_, Db.reasserted_eq hget events', congrArg Evidence.count hsame,
      congrArg Evidence.latest hsame, fun id ↦ ?_⟩
    rw [← List.mem_toFinset, ← List.mem_toFinset]
    exact iff_of_eq (congrArg (id ∈ ·) (congrArg Evidence.sources hsame))
  · refine ⟨_, Db.reasserted_eq hget _, ?_⟩
    have hfilter : (f.evidence.gather Event.id (Event.dateFor f.originTrust) events).latest = _ :=
      Evidence.latest_gather_filter hid
    simp only [Event.dateFor_isSome] at hfilter
    rw [← Fact.evidence_foldl ha, ← Fact.evidence_foldl ha] at hfilter
    exact hfilter.symm
  · have hcounted := (((counted_invariant env).reachable hreach).2 f hf).foldl events
    exact ⟨hcounted.nodup, by rw [List.toFinset_card_of_nodup hcounted.nodup, hcounted.count]⟩

/-- Two events say the city again, out of order and one of them twice, and a third one ranks
below it. -/
def Sample.saidAgain : List Event :=
  [Sample.event 3 .trusted, Sample.event 2 .trusted, Sample.event 3 .trusted,
    Sample.event 4 .thirdParty]

theorem Sample.mem_saidAgain : ∀ event ∈ Sample.saidAgain,
    event ∈ (⟨[Sample.event 3 .trusted, Sample.event 2 .trusted, Sample.event 4 .thirdParty],
      by decide⟩ : Table Event) := by
  intro event hevent
  simp only [Sample.saidAgain, List.mem_cons, List.not_mem_nil, or_false] at hevent
  rcases hevent with rfl | rfl | rfl | rfl
  · exact .head _
  · exact .tail _ (.head _)
  · exact .head _
  · exact .tail _ (.tail _ (.head _))

/-- Each event counts once, and the latest that ranks as high dates the city. -/
theorem reinforcement_order_independent_lyon :
    ∃ f ∈ Sample.lyon.facts, ∃ g, f.status = .active ∧ f.sourceEventIds = [1] ∧
      Sample.lyon.reasserted f.id Sample.saidAgain = some g ∧
      (∀ id, id ∈ g.sourceEventIds ↔ id ∈ [1, 2, 3, 4]) ∧
      g.reinforcementCount = f.reinforcementCount + 3 ∧
      g.lastReinforcedAt = some (Sample.event 3 .trusted).occurredAt := by
  have h : ∃ f ∈ Sample.lyon.facts, f.status = .active ∧ f.sourceEventIds = [1] ∧
      f.lastReinforcedAt = none ∧ f.originTrust = .trusted := by decide +kernel
  obtain ⟨f, hf, ha, hone, hnone, htrust⟩ := h
  obtain ⟨g, hg, hsources, hcount, hlatest, -⟩ :=
    reinforcement_order_independent hf ha Sample.mem_saidAgain
  refine ⟨f, hf, g, ha, hone, hg, fun id ↦ ?_, ?_, (hlatest _).mpr ⟨?_, ?_⟩⟩
  · rw [hsources, hone]
    simp [Sample.saidAgain, Sample.event, or_comm, or_left_comm, eq_comm]
  · rw [hcount, hone]
    rfl
  · refine .inr ⟨_, .head _, ?_, ?_, rfl⟩
    · rw [hone]
      decide
    · rw [htrust]
      decide
  · rintro t (ht | ⟨event, hevent, -, hrank, rfl⟩)
    · cases hnone.symm.trans ht
    · rw [htrust] at hrank
      simp only [Sample.saidAgain, List.mem_cons, List.not_mem_nil, or_false] at hevent
      rcases hevent with rfl | rfl | rfl | rfl
      · exact le_rfl
      · decide
      · exact le_rfl
      · exact absurd hrank (by decide)

/-! ## The clock of freshness -/

/-- What the clock falls back on as long as the fact has no date. -/
def Fact.undated (f : Fact) : Timestamp := f.validFrom.getD f.recordedFrom

theorem Fact.freshnessClock_eq (f : Fact) : f.freshnessClock = f.evidence.clock f.undated := by
  simp only [Fact.freshnessClock, Fact.evidence, Evidence.clock, Fact.undated]
  cases f.lastReinforcedAt <;> rfl

@[simp] theorem Fact.reassertedBy_undated (f : Fact) (event : Event) :
    (f.reassertedBy event).undated = f.undated := by
  rw [Fact.reassertedBy]
  split <;> rfl

theorem Fact.clocks_active (ha : f.status = .active) (events : List Event) :
    (events.scanl Fact.reassertedBy f).map Fact.freshnessClock =
      (events.scanl (fun s event ↦ s.add event.id (event.dateFor f.originTrust)) f.evidence).map
        (Evidence.clock f.undated) := by
  induction events generalizing f with
  | nil => simp [Fact.freshnessClock_eq]
  | cons event events ih =>
    rw [List.scanl_cons, List.scanl_cons, List.map_cons, List.map_cons,
      ih ((f.reassertedBy_status event).trans ha), Fact.freshnessClock_eq,
      Fact.evidence_reassertedBy ha, Fact.reassertedBy_originTrust, Fact.reassertedBy_undated]

/-- A fact out of service does not change. -/
theorem Fact.clocks_inactive (ha : f.status ≠ .active) (events : List Event) :
    ((events.scanl Fact.reassertedBy f).map Fact.freshnessClock).Pairwise (· ≤ ·) := by
  induction events with
  | nil => simp
  | cons event events ih =>
    have hsame : f.reassertedBy event = f := if_pos (.inl ha)
    rw [Evidence.pairwise_scanl_cons, hsame]
    exact ⟨le_rfl, ih⟩

/-- **Freshness.**  Along any sequence of events that say the fact again its clock never goes back,
unless the fact is active and has no date yet, and the first new event that dates it lies before
what the clock falls back on. -/
theorem freshness_monotone_iff (hf : f ∈ db.facts) {ledger : Table Event}
    (hledger : ∀ event ∈ events, event ∈ ledger) :
    (((events.scanl (Db.reassert f.id) db).filterMap (·.fact? f.id)).map
        Fact.freshnessClock).Pairwise (· ≤ ·) ↔
      f.status ≠ .active ∨ f.lastReinforcedAt.isSome ∨
        ∀ event ∈ events.find? fun event ↦
            event.id ∉ f.sourceEventIds ∧ f.originTrust.rank ≤ event.originTrust.rank,
          f.undated ≤ event.occurredAt := by
  rw [Db.scanl_reassert (Db.fact?_of_mem hf)]
  by_cases ha : f.status = .active
  · have hid : ∀ x ∈ events, ∀ y ∈ events, x.id = y.id → x = y := fun x hx y hy h ↦
      Table.eq_of_key_eq (hledger x hx) (hledger y hy) h
    rw [Fact.clocks_active ha, Evidence.clock_pairwise_iff f.undated hid,
      or_iff_right (not_not.mpr ha)]
    refine or_congr Iff.rfl ?_
    have hfind : (events.find? fun event ↦ event.id ∉ f.evidence.sources ∧
          (event.dateFor f.originTrust).isSome) =
        events.find? fun event ↦
          event.id ∉ f.sourceEventIds ∧ f.originTrust.rank ≤ event.originTrust.rank :=
      List.find?_congr fun event _ ↦ decide_eq_decide.mpr (and_congr
        (not_congr List.mem_toFinset) (by rw [Event.dateFor_isSome, decide_eq_true_iff]))
    rw [hfind]
    refine forall₂_congr fun event hevent ↦ ?_
    have hfound := List.find?_some hevent
    rw [Event.dateFor, if_pos (of_decide_eq_true hfound).2]
    simp
  · exact iff_of_true (Fact.clocks_inactive ha events) (.inl ha)

/-- The clock stays where the latest event put it when an older one says the city again. -/
theorem freshness_monotone_lyon :
    ∃ f ∈ Sample.lyon.facts, f.status = .active ∧ f.lastReinforcedAt = none ∧
      (((Sample.saidAgain.scanl (Db.reassert f.id) Sample.lyon).filterMap (·.fact? f.id)).map
        Fact.freshnessClock).Pairwise (· ≤ ·) := by
  have h : ∃ f ∈ Sample.lyon.facts, f.status = .active ∧ f.lastReinforcedAt = none ∧
      ∀ event ∈ Sample.saidAgain.find? fun event ↦
        event.id ∉ f.sourceEventIds ∧ f.originTrust.rank ≤ event.originTrust.rank,
        f.undated ≤ event.occurredAt := by decide +kernel
  obtain ⟨f, hf, ha, hnone, h⟩ := h
  exact ⟨f, hf, ha, hnone,
    (freshness_monotone_iff hf Sample.mem_saidAgain).mpr (.inr (.inr h))⟩

/-- An older event that says the city again, captured later, takes the clock back. -/
theorem older_confirmation_ages_fact :
    ∃ f ∈ Sample.lyon.facts,
      ¬ ((([Sample.event 0 .trusted].scanl (Db.reassert f.id) Sample.lyon).filterMap
        (·.fact? f.id)).map Fact.freshnessClock).Pairwise (· ≤ ·) ∧
      ∃ f' ∈ (runOps .sample Sample.lyon
          (Sample.observe (Sample.event 0 .trusted) [Sample.create "city" "Lyon"])).facts,
        f'.id = f.id ∧ f'.freshnessClock < f.freshnessClock := by
  decide +kernel

end Haki
