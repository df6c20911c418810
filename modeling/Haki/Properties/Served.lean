import Haki.Context.Assembler
import Haki.Properties.OpenSets
import Haki.Sample

/-!
# What a context packet serves

The ranked pool holds active facts only.  A sibling of a contested fact is
loaded by primary key, and every status but `disabled` and `deleted` is served;
so what a packet may contain depends on what becomes of the members of an open
set.  A contender of an active member stays a candidate until it is forgotten
or its set is closed, unless feedback disputes it: then it is served disputed.
-/

namespace Haki

open Data Control

variable {env : Env} {db db' : Db} {event : Event} {c c' : Candidate} {existing : Option Fact}
  {row : Fact} {e : Effect} {s : ConflictSet}

/-! ## The contenders of an active member -/

/-- What a contender of an active fact may be: a candidate, or forgotten. -/
def Fact.Contends (f : Fact) : Prop :=
  f.status = .candidate ∨ f.status = .disabled ∨ f.status = .deleted

/-- In an open set with an active member, the other members contend. -/
def Db.Contended (db : Db) : Prop :=
  ∀ s ∈ db.conflictSets, s.status = .open → ∀ f ∈ db.facts, f.status = .active →
    f.id ∈ s.factIds → ∀ g ∈ db.facts, g.id ∈ s.factIds → g.id ≠ f.id → g.Contends

/-- Feedback disputes a contender of an active fact: the contender is the caller's, and may become
disputed. -/
def DisputesContender (db : Db) : Op → Prop
  | .feedback _ projectId id .incorrect =>
    ∃ g ∈ db.facts, g.id = id ∧ g.scope.projectId = projectId ∧
      .disputed ∈ allowedTransitions g.status ∧
      ∃ s ∈ db.conflictSets, s.status = .open ∧ id ∈ s.factIds ∧
        ∃ f ∈ db.facts, f.id ∈ s.factIds ∧ f.id ≠ id ∧ f.status = .active
  | _ => False

instance (db : Db) (op : Op) : Decidable (DisputesContender db op) :=
  match op with
  | .feedback _ projectId id .incorrect =>
    inferInstanceAs (Decidable (∃ g ∈ db.facts, g.id = id ∧ g.scope.projectId = projectId ∧
      .disputed ∈ allowedTransitions g.status ∧
      ∃ s ∈ db.conflictSets, s.status = .open ∧ id ∈ s.factIds ∧
        ∃ f ∈ db.facts, f.id ∈ s.factIds ∧ f.id ≠ id ∧ f.status = .active))
  | .feedback _ _ _ .useful | .feedback _ _ _ .irrelevant | .capture _ | .consolidate _ _ _ _
  | .resolve _ _ _ _ | .forgetFact _ _ _ _ | .forgetSubject _ _ _ | .serve _ =>
    isFalse id

namespace Db.Contended

/-- The contenders stay as long as no member of an open set becomes active and contenders contend. -/
theorem mono (h : db.Contended) (hsets : ∀ s ∈ db'.conflictSets, s.status = .open →
    s ∈ db.conflictSets ∧ ∀ f' ∈ db'.facts, f'.id ∈ s.factIds → ∃ f ∈ db.facts, f.id = f'.id ∧
      (f'.status = .active → f.status = .active) ∧ (f.Contends → f'.Contends)) :
    db'.Contended := by
  intro s hs ho f' hf' ha hfs g' hg' hgs hne
  obtain ⟨hs, hmem⟩ := hsets s hs ho
  obtain ⟨f, hf, hidf, hact, -⟩ := hmem f' hf' hfs
  obtain ⟨g, hg, hidg, -, hcontends⟩ := hmem g' hg' hgs
  exact hcontends (h s hs ho f hf (hact ha) (hidf ▸ hfs) g hg (hidg ▸ hgs)
    fun heq ↦ hne (hidg.symm.trans (heq.trans hidf)))

/-- A fact that is forgotten contends. -/
theorem updateFact (h : db.Contended) {id : FactId} {g : Fact → Fact}
    (hg : ∀ f, (g f).id = f.id ∧ (g f).status ≠ .active ∧ (f.Contends → (g f).Contends)) :
    (db.updateFact id g).Contended := by
  refine h.mono fun s hs _ ↦ ⟨hs, fun f' hf' _ ↦ ?_⟩
  obtain ⟨f, hf, rfl⟩ := (Db.mem_updateFact fun f ↦ (hg f).1).mp hf'
  obtain ⟨hid, hact, hcontends⟩ := hg f
  refine ⟨f, hf, ?_⟩
  split
  · exact ⟨hid.symm, fun ha ↦ absurd ha hact, hcontends⟩
  · exact ⟨rfl, fun ha ↦ ha, fun hc ↦ hc⟩

/-- Applying an effect keeps the contenders. -/
theorem apply (h : db.Contended) (hopen : db.OpenSets)
    (hadj : Adjudicated env db event c c' existing row e) :
    (e.apply env event db row).Contended := by
  intro s' hs' ho f' hf' ha hfs g' hg' hgs hne
  -- The new row is a candidate whenever it is in an open set.
  have hnew (hid : g'.id = row.id) (hrow : e.onRow env row = row) : g'.Contends := by
    rcases hadj.mem_apply hg' with ⟨g, hg, -, hid', -⟩ | ⟨rfl, -, -⟩
    · exact absurd (hid'.trans hid) (hadj.fresh g hg)
    · exact .inl ((congrArg Fact.status hrow).trans hadj.status)
  rcases hopen.active_apply hadj hs' ho hf' ha hfs with ⟨s, hs, hos, hsid, hf, hfs₀⟩ | ⟨hsid, hx⟩
  · have hold (hgs₀ : g'.id ∈ s.factIds) (hnot : ∀ old s₀ other, e = .overflow old s₀ other →
        s ≠ s₀) : g'.Contends := by
      rcases hadj.mem_apply hg' with ⟨g, hg, rfl, hid', -⟩ | ⟨-, hid', -⟩
      · have hgm : g.id ∈ s.factIds := hid' ▸ hgs₀
        have hgne : g.id ≠ f'.id := hid' ▸ hne
        rcases hopen.onFact_of_open hadj hs hos hgm hnot with he | ⟨old, rfl, hidold, -⟩
        · exact he.symm ▸ h s hs hos f' hf ha hfs₀ g hg hgm hgne
        · -- A replaced member was the active one.
          obtain ⟨hold, -, hactive⟩ := hadj.active old hadj.guard.2.1
          obtain rfl := eq_of_id_eq hg hold hidold
          have heq : g = f' := hopen.served s hs hos g hg f' hf hactive ha hgm hfs₀
          exact absurd (congrArg Fact.id heq) hgne
      · exact absurd (hid' ▸ hgs₀) (hadj.notMem_set hs)
    rcases hopen.open_onSets hadj hs' ho with
      ⟨t, ht, -, htid, -, -, hnot, rfl | ⟨rfl, rfl⟩⟩ | ⟨rfl, rfl⟩ | ⟨old, rfl, -, rfl, -⟩
    · obtain rfl := Table.eq_of_key_eq ht hs (htid.trans hsid.symm)
      exact hold hgs hnot
    · obtain rfl := Table.eq_of_key_eq ht hs (htid.trans hsid.symm)
      rcases List.mem_append.mp hgs with hgs | hgs
      · exact hold hgs hnot
      · exact hnew (List.mem_singleton.mp hgs) rfl
    · exact absurd hsid (db.freshConflictId_ne event.id hs)
    · exact absurd hsid (db.freshConflictId_ne event.id hs)
  · rcases hopen.open_onSets hadj hs' ho with
      ⟨t, ht, -, htid, -⟩ | ⟨rfl, rfl⟩ | ⟨old, rfl, hx', rfl, -⟩
    · exact absurd (htid.trans hsid) (db.freshConflictId_ne event.id ht)
    · exact hnew (List.mem_singleton.mp hgs) rfl
    · obtain rfl := Option.some.inj (hx'.symm.trans hx)
      exact hnew ((List.mem_pair.mp hgs).resolve_left hne) rfl

end Db.Contended

theorem applyCandidate_contended {embedding : Embedding} {result result' : JobResult}
    (hu : db.UniqueActive) (hopen : db.OpenSets) (h : db.Contended)
    (ha : applyCandidate env db c embedding event result = .ok (db', result')) :
    db'.Contended := by
  cases applyCandidate_applied hu ha with
  | counted => exact h
  | reinforced aliases d =>
    refine h.mono fun s hs _ ↦ ⟨hs, fun f' hf' _ ↦ ?_⟩
    obtain ⟨f, hf, rfl⟩ := mem_reinforced.mp hf'
    exact ⟨f, hf, by split <;> exact ⟨rfl, fun ha ↦ ha, fun hc ↦ hc⟩⟩
  | written aliases c' existing row e _ hadj => exact h.apply hopen hadj

/-- Forgetting a fact or a subject keeps the contenders. -/
theorem Op.exec_contended {op : Op} (hop : ¬ op.IsConsolidation) (hfeedback : op.IsNotFeedback)
    (hopen : db.OpenSets) (h : db.Contended) (he : op.exec env db = .ok db') : db'.Contended := by
  cases op with
  | capture | consolidate | serve => exact absurd trivial hop
  | feedback => exact hfeedback.elim
  | resolve now projectId id keep =>
    obtain ⟨conflict, db₁, hc, ho, -, hm, rfl⟩ := resolveConflict_eq_ok he
    obtain ⟨hs, rfl⟩ := Table.get?_eq_some_iff.mp hc
    refine h.mono fun t ht hto ↦ ?_
    obtain ⟨ht, hsame⟩ := hopen.open_resolve hs ho (resolveMembers_moves hm) ht hto
    exact ⟨ht, fun f hf hid ↦ ⟨f, Db.mem_of_fact? ((hsame f.id hid).symm.trans
      (Db.fact?_of_mem hf)), rfl, fun ha ↦ ha, fun hc ↦ hc⟩⟩
  | forgetFact now projectId id mode =>
    rcases forgetFact_eq_ok he with rfl | ⟨-, rfl⟩
    · exact h
    · refine h.updateFact fun f ↦ ⟨f.forgotten_id mode now, (f.withdrawn_forgotten mode now).status,
        fun _ ↦ ?_⟩
      rw [Fact.Contends, Fact.forgotten_status]
      cases mode <;> simp [ForgetMode.target]
  | forgetSubject now scope mode =>
    cases mode with
    | disable =>
      refine foldlM_preserves (I := Db.Contended) (fun db₁ id db₂ hI h ↦ ?_) h he
      obtain ⟨-, -, -, rfl, -⟩ := transitionFactStatus_eq_ok h
      exact hI.updateFact fun f ↦ ⟨rfl, by simp, fun _ ↦ .inr (.inl rfl)⟩
    | delete =>
      cases he
      refine h.mono fun s hs _ ↦ ⟨(Table.mem_filter.mp hs).1, fun f hf _ ↦ ?_⟩
      exact ⟨f, (Table.mem_filter.mp hf).1, rfl, fun ha ↦ ha, fun hc ↦ hc⟩

/-- The contenders stay in every run without feedback. -/
theorem contended_invariant (env : Env) :
    Invariant env Op.IsNotFeedback (fun _ _ _ _ ↦ True) fun db ↦ db.OpenSets ∧ db.Contended where
  empty := ⟨(openSets_invariant env Op.IsNotFeedback).empty, by rintro _ ⟨⟩⟩
  frame db events traces h := ⟨(openSets_invariant env Op.IsNotFeedback).frame db events traces h.1,
    h.2⟩
  candidate now event db c result db' result' hu h _ ha :=
    ⟨applyCandidate_openSets hu h.1 ha, applyCandidate_contended hu h.1 h.2 ha⟩
  other db op db' hop hallowed hu h he :=
    ⟨(openSets_invariant env Op.IsNotFeedback).other db op db' hop hallowed hu h.1 he,
      Op.exec_contended hop hallowed h.1 h.2 he⟩

/-- Feedback that disputes no contender keeps the contenders. -/
theorem feedback_contended {now : Timestamp} {projectId : String} {id : FactId} {rating : Rating}
    (h : db.Contended) (hkeep : ¬ DisputesContender db (.feedback now projectId id rating))
    (he : submitFeedback now db projectId id rating = .ok db') : db'.Contended := by
  rcases submitFeedback_eq_ok he with rfl | ⟨⟨rfl, disputed, hget, hproject, hallowed⟩, rfl⟩
  · exact h
  · intro s hs ho f' hf' ha hfs g' hg' hgs hne
    obtain ⟨f, hf, rfl⟩ := (Db.mem_updateFact (Fact.moveTo_id · _ now)).mp hf'
    obtain ⟨g, hg, rfl⟩ := (Db.mem_updateFact (Fact.moveTo_id · _ now)).mp hg'
    split at ha
    · cases ha
    · next hid =>
      rw [if_neg hid] at hfs hne
      split at hgs
      · next hid' =>
        exact absurd ⟨disputed, Db.mem_of_fact? hget, Db.id_of_fact? hget, hproject, hallowed,
          s, hs, ho, hid' ▸ hgs, f, hf, hfs, hid, ha⟩ hkeep
      · next hid' =>
        rw [if_neg hid'] at hne ⊢
        exact h s hs ho f hf ha hfs g hg hgs hne

/-! ## Runs -/

/-- One operation that disputes no contender. -/
theorem Op.run_contended {op : Op} (h : db.UniqueActive ∧ db.OpenSets ∧ db.Contended)
    (hop : ¬ DisputesContender db op) :
    (op.run env db).UniqueActive ∧ (op.run env db).OpenSets ∧ (op.run env db).Contended := by
  obtain ⟨hu, hopen, hcontended⟩ := h
  rw [Op.run]
  split
  · next db' he =>
    refine ⟨Op.exec_unique hu he, ?_⟩
    cases op with
    | feedback now projectId id rating =>
      exact ⟨(openSets_invariant env fun _ ↦ True).other db _ db' (by rintro ⟨⟩) trivial hu hopen he,
        feedback_contended hcontended hop he⟩
    | _ =>
      exact (contended_invariant env).exec (by exact trivial) hu ⟨hopen, hcontended⟩
        (Op.meets_true _ env db) he
  · exact ⟨hu, hopen, hcontended⟩

/-- The contenders stay in every run that disputes none. -/
theorem runOps_contended {ops : List Op}
    (hops : StepsMeet env (fun db op ↦ ¬ DisputesContender db op) .empty ops) :
    (runOps env .empty ops).Contended := by
  have hempty := openSets_invariant env fun _ ↦ True
  exact (runOps_invariant (I := fun db ↦ db.UniqueActive ∧ db.OpenSets ∧ db.Contended)
    (fun _ _ ↦ Op.run_contended)
    ⟨by rintro _ ⟨⟩, hempty.empty, by rintro _ ⟨⟩⟩ hops).2.2

/-! ## Packets -/

/-- The fact behind a served item is active, or a candidate member of an open set of which an active
member is served in the same packet. -/
def ServedSoundly (db : Db) (packet : ContextPacket) (id : FactId) : Prop :=
  ∃ f ∈ db.facts, f.id = id ∧ (f.status = .active ∨ f.status = .candidate ∧
    ∃ s ∈ db.conflictSets, s.status = .open ∧ f.id ∈ s.factIds ∧
      ∃ other ∈ packet.facts, ∃ g ∈ db.facts, g.id = other.item.id ∧ g.status = .active ∧
        g.id ∈ s.factIds)

/-- **Packets.**  In every run in which no feedback disputes a contender of an active fact, every
fact of every packet is active, or a candidate that is served with the active member of its open
set. -/
theorem buildContext_servedSoundly (env : Env) (ops : List Op)
    (hops : StepsMeet env (fun db op ↦ ¬ DisputesContender db op) .empty ops) (reader : Reader)
    (store : Store) (hstore : store.ledger = runOps env .empty ops) (request : ContextRequest)
    (built : BuiltContext) (h : buildContext reader store request = .ok built) :
    ∀ printed ∈ built.packet.facts, ServedSoundly store.ledger built.packet printed.item.id := by
  obtain ⟨-, pool, hpool, packed, hpacked, rfl⟩ := buildContext_eq_ok h
  have hcontended : store.ledger.Contended := hstore ▸ runOps_contended hops
  -- A row of the pool is an active fact.
  have hactive {row : FactRow} (hrow : .fact row ∈ pool.map Ranked.row) :
      row.fact ∈ store.ledger.facts ∧ row.fact.status = .active := by
    obtain ⟨a, ha, heq⟩ := List.mem_map.mp hrow
    obtain ⟨hmem, -, heligible, -⟩ := mem_factRows (mem_gatedRows (heq ▸ hpool a ha)).1
    exact ⟨hmem, heligible.1⟩
  have hsourced := pack_sourced (packingCall reader store request)
    (gatedRows reader store request).2 pool
  rw [← hpacked] at hsourced
  intro printed hprinted
  rcases hsourced.facts printed hprinted with
    ⟨ref, row, hrow, heq⟩ |
    ⟨ref, row, s, siblingId, sibling, hrow, hin, hconflict, hlisted, hhydrated, hother, hserved, heq⟩
  · obtain ⟨hmem, hact⟩ := hactive hrow
    exact ⟨row.fact, hmem, by rw [heq]; rfl, .inl hact⟩
  · obtain ⟨hmem, hact⟩ := hactive hrow
    obtain ⟨hs, -, ho, -, hid⟩ := contestedConflict_some hconflict
    obtain ⟨hsibling, rfl⟩ := Db.fact?_eq_some_iff.mp (contestedRow_some hhydrated)
    have hcandidate : sibling.status = .candidate :=
      (hcontended s hs ho row.fact hmem hact hid sibling hsibling hlisted hother).resolve_right
        hserved
    obtain ⟨other, hotherMem, hotherId⟩ := List.mem_map.mp hin
    exact ⟨sibling, hsibling, by rw [heq]; rfl, .inr ⟨hcandidate, s, hs, ho, hlisted, other,
      hotherMem, row.fact, hmem, hotherId.symm, hact, hid⟩⟩

/-- `Nice`, a candidate, is served with `Lyon`, soundly. -/
theorem buildContext_servedSoundly_nice :
    ∃ built, buildContext .sample Sample.disputed Sample.request = .ok built ∧
      (∃ printed ∈ built.packet.facts, printed.item.id = ⟨2, 0⟩) ∧
      ∀ printed ∈ built.packet.facts,
        ServedSoundly Sample.disputed.ledger built.packet printed.item.id := by
  have hserved : ⟨2, 0⟩ ∈ Sample.served (runOps .sample .empty Sample.lyonOrNice) := by
    rw [Sample.served_lyonOrNice]
    simp
  obtain ⟨built, hbuilt, hprinted⟩ := Sample.mem_served hserved
  exact ⟨built, hbuilt, hprinted, buildContext_servedSoundly .sample Sample.lyonOrNice
    (by decide +kernel) .sample Sample.disputed rfl Sample.request built hbuilt⟩

/-- `Nice` is reported incorrect while it contends with `Lyon`. -/
def Sample.disputedNice : List Op :=
  Sample.lyonOrNice ++ [.feedback 3 "project" ⟨2, 0⟩ .incorrect]

/-- A fact that was reported incorrect is served next to the value it contradicts. -/
theorem disputed_fact_served :
    ∃ db, Reachable .sample (fun _ ↦ True) db ∧ ∃ built,
      buildContext .sample (Sample.store db) Sample.request = .ok built ∧
      ∃ printed ∈ built.packet.facts, ¬ ServedSoundly db built.packet printed.item.id ∧
        ∀ f ∈ db.facts, f.id = printed.item.id → f.status = .disputed := by
  refine ⟨runOps .sample .empty Sample.disputedNice, ⟨_, fun _ _ ↦ trivial, rfl⟩, ?_⟩
  have hserved : ⟨2, 0⟩ ∈ Sample.served (runOps .sample .empty Sample.disputedNice) := by
    rw [Sample.served_eq (by decide +kernel)]
    decide +kernel
  have hstatus : ∀ f ∈ (runOps .sample .empty Sample.disputedNice).facts, f.id = ⟨2, 0⟩ →
      f.status = .disputed := by
    decide +kernel
  obtain ⟨built, hbuilt, printed, hprinted, hid⟩ := Sample.mem_served hserved
  refine ⟨built, hbuilt, printed, hprinted, ?_, hid ▸ hstatus⟩
  rintro ⟨f, hf, hfid, hact | ⟨hcandidate, -⟩⟩
  · cases (hstatus f hf (hfid.trans hid)).symm.trans hact
  · cases (hstatus f hf (hfid.trans hid)).symm.trans hcandidate

end Haki
