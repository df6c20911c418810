import Haki.Properties.Uniqueness

/-!
# A value under review that is repeated

The duplicate check finds a value whatever became of the fact that has it, and
takes every one that is not active for a value that was superseded and comes
back.  `applyCandidate_staysUnderReview_iff` says when a value that waits for a
human stays where it is: unless the candidate resolves to an active fact it may
replace.
-/

namespace Haki

open Data Control

variable {env : Env} {db : Db} {event : Event} {c : Candidate} {embedding : Embedding}

/-! ## Values under review -/

/-- The fact has the identity and the value of the candidate. -/
def Fact.Says (f : Fact) (event : Event) (c : Candidate) : Prop :=
  f.scope = event.scope ∧ f.predicate = c.predicate ∧ identityQualifiersMatch f c.qualifiers ∧
    canonical f.value = canonical c.value

instance (f : Fact) (event : Event) (c : Candidate) : Decidable (f.Says event c) :=
  inferInstanceAs (Decidable (_ ∧ _ ∧ _ ∧ _))

/-- The candidate repeats a scalar value that waits, is disputed or is forgotten, and that is neither
served nor was replaced. -/
structure UnderReview (db : Db) (event : Event) (c : Candidate) : Prop where
  create : c.action = .create
  waiting : ∃ f ∈ db.facts, f.Says event c ∧ f.memoryForm = .state ∧
    (f.status = .candidate ∨ f.status = .disputed ∨ f.status = .disabled)
  unsettled : ∀ f ∈ db.facts, f.Says event c → f.status ≠ .active ∧ f.status ≠ .superseded

/-- Applying the candidate activates no fact, and changes the status, value and validity of none. -/
def StaysUnderReview (env : Env) (db : Db) (c : Candidate) (embedding : Embedding) (event : Event) :
    Prop :=
  ∀ result db' result', applyCandidate env db c embedding event result = .ok (db', result') →
    (∀ f' ∈ db'.facts, f'.status = .active → ∃ f ∈ db.facts, f.id = f'.id ∧ f.status = .active) ∧
      ∀ f ∈ db.facts, ∃ f' ∈ db'.facts, f'.id = f.id ∧ f'.status = f.status ∧
        f'.value = f.value ∧ f'.validTo = f.validTo

/-- The active fact a value that comes back replaces.  It is resolved twice, the second time with
the alias that the first time may have learned. -/
def Db.returnTarget (env : Env) (db : Db) (event : Event) (c : Candidate) (embedding : Embedding) :
    Option Fact :=
  ((db.resolveExistingFact env event.scope c.targetPredicate c.qualifiers
    embedding).2.resolveExistingFact env event.scope c.targetPredicate c.qualifiers embedding).1

/-- Some active fact is found for the candidate, the event may replace it, the dates of the new row
can be computed, and no third fact has its slot. -/
def Promoted (env : Env) (db : Db) (c : Candidate) (embedding : Embedding) (event : Event) : Prop :=
  ∃ old ∈ db.returnTarget env event c embedding, ¬ HeldBack event (some old) ∧
    DatesParse env { c with action := .supersede } (some old) event ∧
    ¬ (old.memoryForm = .state ∧ ∃ g ∈ db.facts, g.Current ∧
      g.HasKey event.scope c.predicate (attributed c.qualifiers event) ∧ g.id ≠ old.id)

/-! ## Resolving twice -/

section

variable {scope : Scope} {predicate : String} {qualifiers : Dict}

/-- A candidate resolves to a fact exactly when one is found under its predicate, under a registered
alias, or near enough. -/
theorem Db.resolveExistingFact_isSome :
    (db.resolveExistingFact env scope predicate qualifiers embedding).1.isSome ↔
      (db.activeFact scope predicate qualifiers).isSome ∨
      ((db.aliasOf scope predicate).bind fun p ↦ db.activeFact scope p qualifiers).isSome ∨
      ∃ p ∈ db.nearestActiveFact env scope qualifiers embedding,
        p.2 ≤ semanticMatchMaxDistance := by
  unfold resolveExistingFact
  split
  · next h => simp [h]
  · next h =>
    split
    · next h' => simp [h, h']
    · next h' =>
      rw [h, h']
      split
      · next hn => simp [hn]
      · next f d hn =>
        simp only [hn, Option.mem_def, Option.some.injEq, exists_eq_left', Option.isSome_none,
          Bool.false_eq_true, false_or]
        split
        · next hfar => simpa using hfar
        · next hnear => split <;> simpa using hnear

/-- Resolving a candidate teaches no alias, or one for a fact that is near enough. -/
theorem Db.resolveExistingFact_learns (env : Env) (db : Db) (scope : Scope) (predicate : String)
    (qualifiers : Dict) (embedding : Embedding) :
    (db.resolveExistingFact env scope predicate qualifiers embedding).2 = db ∨
      ∃ p ∈ db.nearestActiveFact env scope qualifiers embedding,
        p.2 ≤ semanticMatchMaxDistance := by
  unfold resolveExistingFact
  split
  · exact .inl rfl
  · split
    · exact .inl rfl
    · split
      · exact .inl rfl
      · next f d hn =>
        split
        · exact .inl rfl
        · next hnear => exact .inr ⟨(f, d), hn, not_lt.mp hnear⟩

/-- Resolving a candidate again finds a fact exactly when the first time did. -/
theorem Db.resolveExistingFact_again (env : Env) (db : Db) (scope : Scope) (predicate : String)
    (qualifiers : Dict) (embedding : Embedding) :
    ((db.resolveExistingFact env scope predicate qualifiers embedding).2.resolveExistingFact env
        scope predicate qualifiers embedding).1.isSome ↔
      (db.resolveExistingFact env scope predicate qualifiers embedding).1.isSome := by
  obtain ⟨aliases, ha⟩ := db.resolveExistingFact_snd env scope predicate qualifiers embedding
  rcases db.resolveExistingFact_learns env scope predicate qualifiers embedding with h | h
  · rw [h]
  · refine iff_of_true ?_ (resolveExistingFact_isSome.mpr (.inr (.inr h)))
    rw [ha]
    exact resolveExistingFact_isSome.mpr (.inr (.inr h))

end

/-! ## What becomes of the candidate -/

/-- A value under review is found as a duplicate that is not active. -/
theorem UnderReview.findDuplicate (h : UnderReview db event c) :
    ∃ d, db.findDuplicate event.scope c.predicate c.value c.qualifiers = some d ∧
      d.status ≠ .active := by
  obtain ⟨f, hf, ⟨hscope, hp, hq, hv⟩, hform, hstatus⟩ := h.waiting
  have hmem : f ∈ db.duplicates event.scope c.predicate c.value c.qualifiers := by
    refine Db.mem_duplicates.mpr ⟨hf, hscope, hp, ?_, by simp [hform], hv, hq⟩
    rcases hstatus with hs | hs | hs <;> simp [hs]
  cases hd : db.findDuplicate event.scope c.predicate c.value c.qualifiers with
  | none => exact absurd (Db.findDuplicate_eq_none_iff.mp hd ▸ hmem) List.not_mem_nil
  | some d =>
    obtain ⟨hm, hs, hp, -, -, hv, hq⟩ := Db.mem_duplicates.mp (Db.findDuplicate_some hd)
    exact ⟨d, rfl, (h.unsettled d hm ⟨hs, hp, hq, hv⟩).1⟩

/-- A value whose facts are none of them active is counted as a duplicate, or matched as a supersede
of the fact it resolves to. -/
theorem matchCandidate_of_stale {d : Fact}
    (hd : db.findDuplicate event.scope c.predicate c.value c.qualifiers = some d)
    (ha : d.status ≠ .active) :
    (db.returnTarget env event c embedding = none ∧
      (matchCandidate env db c embedding event).1 = .duplicate d) ∨
    ∃ old, db.returnTarget env event c embedding = some old ∧
      (matchCandidate env db c embedding event).1 =
        .against { c with action := .supersede } (some old) := by
  have hagain :=
    db.resolveExistingFact_again env event.scope c.targetPredicate c.qualifiers embedding
  rw [Haki.matchCandidate, hd]
  dsimp only
  rw [if_neg ha]
  split
  · next hr =>
    refine .inl ⟨?_, rfl⟩
    simpa [hr, Db.returnTarget] using hagain
  · next g db₁ hr =>
    obtain ⟨old, hold⟩ : ∃ old, db.returnTarget env event c embedding = some old :=
      Option.isSome_iff_exists.mp (hagain.mpr (by rw [hr]; rfl))
    refine .inr ⟨old, hold, ?_⟩
    have htarget : (db₁.resolveExistingFact env event.scope c.targetPredicate c.qualifiers
        embedding).1 = some old := by
      rw [← hold, Db.returnTarget, hr]
    have hpred : ({ c with action := .supersede } : Candidate).targetPredicate = c.targetPredicate :=
      rfl
    rw [matchTarget]
    simp only [hpred, htarget, Option.some_or]
    rw [if_neg (by simp)]

/-- A value under review is counted as a duplicate, or matched as a supersede of the fact it resolves
to. -/
theorem UnderReview.matchCandidate (env : Env) (embedding : Embedding) (h : UnderReview db event c) :
    (∃ d, d.status ≠ .active ∧ db.returnTarget env event c embedding = none ∧
      (matchCandidate env db c embedding event).1 = .duplicate d) ∨
    ∃ old, db.returnTarget env event c embedding = some old ∧
      (matchCandidate env db c embedding event).1 =
        .against { c with action := .supersede } (some old) := by
  obtain ⟨d, hd, ha⟩ := h.findDuplicate
  exact (matchCandidate_of_stale hd ha).imp_left fun hm ↦ ⟨d, ha, hm⟩

/-- A ledger with other aliases, or one more row that is a candidate, stays under review. -/
theorem stays_of_facts {db' : Db} (h : ∀ f ∈ db'.facts, f ∈ db.facts ∨ f.status = .candidate)
    (h' : ∀ f ∈ db.facts, f ∈ db'.facts) :
    (∀ f' ∈ db'.facts, f'.status = .active → ∃ f ∈ db.facts, f.id = f'.id ∧ f.status = .active) ∧
      ∀ f ∈ db.facts, ∃ f' ∈ db'.facts, f'.id = f.id ∧ f'.status = f.status ∧
        f'.value = f.value ∧ f'.validTo = f.validTo := by
  refine ⟨fun f hf ha ↦ ?_, fun f hf ↦ ⟨f, h' f hf, rfl, rfl, rfl, rfl⟩⟩
  rcases h f hf with hm | hc
  · exact ⟨f, hm, rfl, ha⟩
  · cases hc.symm.trans ha

/-- **A value under review is not promoted by repetition.**  In every ledger that meets the index, a
candidate that repeats a value under review leaves it there exactly when it does not resolve to an
active fact that it may replace. -/
theorem applyCandidate_staysUnderReview_iff (hu : db.UniqueActive) (h : UnderReview db event c) :
    StaysUnderReview env db c embedding event ↔ ¬ Promoted env db c embedding event := by
  rcases h.matchCandidate env embedding with
    ⟨d, ha, htarget, hm⟩ | ⟨old, htarget, hm⟩
  · obtain ⟨aliases, heq⟩ := applyCandidate_duplicate hm
    refine iff_of_true (fun result db' result' hok ↦ ?_) ?_
    · rw [heq, if_pos (.inl ha)] at hok
      obtain ⟨rfl, -⟩ := Prod.mk.inj (Except.ok.inj hok)
      exact stays_of_facts (fun f hf ↦ .inl hf) fun f hf ↦ hf
    · rintro ⟨old, hold, -⟩
      cases htarget.symm.trans hold
  · obtain ⟨aliases, heq⟩ := applyCandidate_against hu hm
    have hmatch := matchCandidate_against hm
    -- The target is a function of the ledger and the candidate.
    have hpromoted : Promoted env db c embedding event ↔ ¬ HeldBack event (some old) ∧
        DatesParse env { c with action := .supersede } (some old) event ∧
        ¬ (old.memoryForm = .state ∧ ∃ g ∈ db.facts, g.Current ∧
          g.HasKey event.scope c.predicate (attributed c.qualifiers event) ∧ g.id ≠ old.id) := by
      rw [Promoted, htarget]
      simp only [Option.mem_def, Option.some.injEq, exists_eq_left']
    rw [hpromoted]
    rcases candidateRow_cases env db { c with action := .supersede } (some old) embedding event with
      ⟨hd, row, hrow⟩ | ⟨hd, hrow⟩
    · have hf := candidateRow_fresh hrow
      have hcandidate := candidateRow_status hrow
      by_cases hheld : HeldBack event (some old)
      · -- The candidate row is added, and nothing else.
        refine iff_of_true (fun result db' result' hok ↦ ?_) fun hp ↦ hp.1 hheld
        have he : effectOf db { c with action := .supersede } (some old) row.memoryForm event =
            .ok .hold := if_pos hheld
        rw [heq, hrow, ok_bind, he, ok_bind] at hok
        obtain ⟨db₁, hflush, hok⟩ := bind_eq_ok.mp hok
        obtain ⟨rfl, -⟩ := flush_eq_ok.mp hflush
        obtain ⟨rfl, -⟩ := Prod.mk.inj (Except.ok.inj hok)
        refine stays_of_facts (fun f hf' ↦ ?_) fun f hf' ↦ ?_
        · rcases (Effect.mem_apply hf).mp hf' with ⟨g, hg, rfl⟩ | rfl
          · exact .inl hg
          · exact .inr hcandidate
        · exact (Effect.mem_apply hf).mpr (.inl ⟨f, hf', rfl⟩)
      · have he : effectOf db { c with action := .supersede } (some old) row.memoryForm event =
            .ok (.replace old) := effectOf_activates hmatch hheld (.inr rfl)
        have hunique := unique_apply_iff hu hmatch hrow he
        by_cases hslot : old.memoryForm = .state ∧ ∃ g ∈ db.facts, g.Current ∧
            g.HasKey event.scope c.predicate (attributed c.qualifiers event) ∧ g.id ≠ old.id
        · -- The write is refused, so nothing happens.
          refine iff_of_true (fun result db' result' hok ↦ ?_) fun hp ↦ hp.2.2 hslot
          rw [heq, hrow, ok_bind, he, ok_bind] at hok
          obtain ⟨db₁, hflush, hok⟩ := bind_eq_ok.mp hok
          obtain ⟨hform, g, hg, hc, hkey, hne⟩ := hslot
          refine absurd (flush_eq_ok.mp hflush).2 fun hu' ↦ hunique.mp hu' ?_
          exact ⟨hheld, .inr rfl, hform, g, hg, hc, hkey, by rintro _ ⟨⟩; exact hne⟩
        · refine iff_of_false (fun hstays ↦ ?_) (not_not.mpr ⟨hheld, hd, hslot⟩)
          have hu' : ({ Effect.apply env event db row (.replace old) with
              predicateAliases := aliases } : Db).UniqueActive := by
            refine hunique.mpr ?_
            rintro ⟨-, -, hform, g, hg, hc, hkey, hne⟩
            exact hslot ⟨hform, g, hg, hc, hkey, hne old rfl⟩
          have hok := heq {}
          rw [hrow, ok_bind, he, ok_bind, flush_of_unique hu', ok_bind] at hok
          have hnew : Effect.onRow env (.replace old) row ∈
              (Effect.apply env event db row (.replace old)).facts :=
            (Effect.mem_apply hf).mpr (.inr rfl)
          obtain ⟨f, hf', hid, -⟩ := (hstays {} _ _ hok).1 _ hnew rfl
          exact hf f hf' hid
    · refine iff_of_true (fun result db' result' hok ↦ ?_) fun hp ↦ hd hp.2.1
      rw [heq, hrow] at hok
      cases hok

/-- The candidate of an open contradiction is repeated. -/
theorem Sample.nice_underReview :
    UnderReview (runOps .sample .empty Sample.lyonOrNice) (Sample.event 3 .trusted)
      (Sample.create "city" "Nice") :=
  ⟨rfl, by decide +kernel, by decide +kernel⟩

/-- The equivalence for the candidate of an open contradiction. -/
theorem applyCandidate_staysUnderReview_nice :
    StaysUnderReview .sample (runOps .sample .empty Sample.lyonOrNice) (Sample.create "city" "Nice")
        [] (Sample.event 3 .trusted) ↔
      ¬ Promoted .sample (runOps .sample .empty Sample.lyonOrNice) (Sample.create "city" "Nice") []
        (Sample.event 3 .trusted) :=
  applyCandidate_staysUnderReview_iff (by decide +kernel) Sample.nice_underReview

/-- A contradiction that waits for a human is decided by saying it again. -/
theorem repeated_contradiction_promoted :
    Reachable .sample Op.IsConsolidation (runOps .sample .empty Sample.lyonOrNice) ∧
      UnderReview (runOps .sample .empty Sample.lyonOrNice) (Sample.event 3 .trusted)
        (Sample.create "city" "Nice") ∧
      ¬ StaysUnderReview .sample (runOps .sample .empty Sample.lyonOrNice)
        (Sample.create "city" "Nice") (candidateEmbedding .sample (Sample.create "city" "Nice"))
        (Sample.event 3 .trusted) := by
  refine ⟨⟨_, Sample.lyonOrNice_isConsolidation, rfl⟩, Sample.nice_underReview, fun hstays ↦ ?_⟩
  have h : ∃ s ∈ (applyCandidate .sample (runOps .sample .empty Sample.lyonOrNice)
      (Sample.create "city" "Nice") (candidateEmbedding .sample (Sample.create "city" "Nice"))
      (Sample.event 3 .trusted) {}).toOption, ∃ f ∈ s.1.facts, f.status = .active ∧
        ∀ g ∈ (runOps .sample .empty Sample.lyonOrNice).facts, g.id ≠ f.id := by decide +kernel
  obtain ⟨s, hs, f, hf, ha, hnew⟩ := h
  obtain ⟨g, hg, hid, -⟩ := (hstays {} s.1 s.2 (toOption_eq_some.mp hs)).1 f hf ha
  exact hnew g hg hid

end Haki
