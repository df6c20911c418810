import Haki.Control.Chain
import Haki.Properties.OpenSets
import Haki.Properties.Resolution
import Haki.Sample
import Haki.Writes

/-!
# One memory form per identity

The form of an identity is settled by its first active fact, and only the
overflow of a conflict set is meant to change it, once, from `state` to
`event`.  The write path keeps to that as long as it activates no fact next to
an active one that has its identity and another form.
-/

namespace Haki

open Data Control

variable {env : Env} {db db' : Db} {event : Event} {c c' : Candidate} {existing : Option Fact}
  {row f g : Fact} {e : Effect} {s : ConflictSet} {now : Timestamp} {keep id : FactId}

/-! ## Identities and their forms -/

/-- What a memory form belongs to: a subject, a predicate, and qualifiers without provenance. -/
structure Identity where
  scope : Scope
  predicate : String
  qualifiers : String
deriving DecidableEq

/-- The identity of a fact. -/
def Fact.identity (f : Fact) : Identity :=
  ⟨f.scope, f.predicate, canonical (identityQualifiers f.qualifiers)⟩

/-- The identity a candidate is written under. -/
def Candidate.identity (c : Candidate) (event : Event) : Identity :=
  ⟨event.scope, c.predicate, canonical (identityQualifiers c.qualifiers)⟩

/-- All active facts of one identity have the same form. -/
def Db.OneForm (db : Db) : Prop :=
  ∀ f ∈ db.facts, ∀ g ∈ db.facts, f.status = .active → g.status = .active →
    f.identity = g.identity → f.memoryForm = g.memoryForm

instance (db : Db) : Decidable db.OneForm :=
  inferInstanceAs (Decidable (∀ f ∈ db.facts, ∀ g ∈ db.facts, f.status = .active →
    g.status = .active → f.identity = g.identity → f.memoryForm = g.memoryForm))

/-- The identity has an active fact. -/
def Db.Serves (db : Db) (i : Identity) : Prop :=
  ∃ f ∈ db.facts, f.status = .active ∧ f.identity = i

/-- The identity has an active fact, and every one has the form `m`. -/
structure Db.FormIs (db : Db) (i : Identity) (m : MemoryForm) : Prop where
  served : db.Serves i
  form : ∀ f ∈ db.facts, f.status = .active → f.identity = i → f.memoryForm = m

/-- An active fact that is not one of `ids` has the identity, in another form. -/
def Db.OtherForm (db : Db) (i : Identity) (m : MemoryForm) (ids : List FactId) : Prop :=
  ∃ g ∈ db.facts, g.status = .active ∧ g.id ∉ ids ∧ g.identity = i ∧ g.memoryForm ≠ m

/-! ## What a write activates -/

namespace Effect

/-- The identities an effect activates facts of. -/
def identities (event : Event) (c : Candidate) : Effect → List Identity
  | .accept | .replace _ => [c.identity event]
  | .overflow old _ other => c.identity event :: (old :: other.toList).map Fact.identity
  | _ => []

/-- The form it activates them in. -/
def formOf (c : Candidate) (existing : Option Fact) : Effect → MemoryForm
  | .overflow _ _ _ => .event
  | _ => memoryFormOf c existing

/-- The facts it closes or rewrites. -/
def touched : Effect → List FactId
  | .replace old => [old.id]
  | .overflow old _ other => (old :: other.toList).map Fact.id
  | _ => []

end Effect

/-! ## Where forms can part -/

/-- A candidate that names another predicate than its own as the one it supersedes has the form of
the fact found there.  It is activated when it supersedes that fact, when that fact is an occurrence,
or when there is none; and an active fact of its own identity, other than the superseded one, has the
other form. -/
def Relabels (env : Env) (event : Event) (db : Db) (c : Candidate) : Prop :=
  c.targetPredicate ≠ c.predicate ∧
    ∃ c' existing, (matchCandidate env db c (candidateEmbedding env c) event).1 =
        .against c' existing ∧
      ¬ HeldBack event existing ∧
      (c'.action = .supersede ∨ ∀ old ∈ existing, old.memoryForm = .event) ∧
      ∃ g ∈ db.facts, g.status = .active ∧ g.identity = c'.identity event ∧
        g.memoryForm ≠ memoryFormOf c' existing ∧
        (c'.action = .supersede → ∀ old ∈ existing, g.id ≠ old.id)

instance (env : Env) (event : Event) (db : Db) (c : Candidate) :
    Decidable (Relabels env event db c) :=
  @instDecidableAnd _ _ inferInstance (Match.decidableAdjudicated _ _)

/-- A third value for a `state` whose open set is full, while a `state` outside of the set is active
under the identity of the candidate or of a member: the three are made occurrences, and the one
outside is not. -/
def OverflowsBeside (env : Env) (event : Event) (db : Db) (c : Candidate) : Prop :=
  ∃ c' old, (matchCandidate env db c (candidateEmbedding env c) event).1 = .against c' (some old) ∧
    ¬ HeldBack event (some old) ∧ c'.action ≠ .supersede ∧ old.memoryForm = .state ∧
    ∃ s ∈ db.openConflictSet event.scope old.id, conflictSetMaxMembers ≤ s.factIds.length ∧
      ∃ g ∈ db.facts, g.status = .active ∧ g.memoryForm = .state ∧ g.id ∉ s.factIds ∧
        (g.identity = c'.identity event ∨ ∃ m ∈ db.facts, m.id ∈ s.factIds ∧
          g.identity = m.identity)

instance (env : Env) (event : Event) (db : Db) (c : Candidate) :
    Decidable (OverflowsBeside env event db c) :=
  Match.decidableAgainst _ _

/-- The candidate does neither. -/
def KeepsForm (env : Env) (event : Event) (db : Db) (c : Candidate) : Prop :=
  ¬ Relabels env event db c ∧ ¬ OverflowsBeside env event db c

instance (env : Env) (event : Event) (db : Db) (c : Candidate) :
    Decidable (KeepsForm env event db c) :=
  inferInstanceAs (Decidable (_ ∧ _))

/-- A resolution that activates a member does so in the form it was written in, whatever its identity
has become since: no active fact outside of the set has that identity in another form. -/
def ResolvesInForm (db : Db) : Op → Prop
  | .resolve _ _ id keep => ∀ s ∈ db.conflictSet? id, ∀ k ∈ db.fact? keep, k.status ≠ .active →
    ¬ db.OtherForm k.identity k.memoryForm s.factIds
  | _ => True

/-- The write reclassifies an overflowing identity. -/
def Reclassifies (env : Env) (db db' : Db) : Prop :=
  ∃ now event c result result', applyCandidate (env.at now) db c
    (candidateEmbedding (env.at now) c) event result = .ok (db', result') ∧
      result'.reclassifiedEvent = result.reclassifiedEvent + 1

/-! ## Matching a candidate by its own predicate -/

theorem identityQualifiers_attributed (qualifiers : Dict) (event : Event) :
    identityQualifiers (attributed qualifiers event) = identityQualifiers qualifiers := by
  rw [attributed]
  split
  · refine Table.filter_upsert fun b hb ↦ ?_
    have hb : b.1 = "attributed_to" := hb
    simp [provenanceQualifiers, hb]
  · rfl

/-- An active fact with the target predicate and the identity qualifiers is found. -/
theorem Db.activeFact_isSome {scope : Scope} {predicate : String} {qualifiers : Dict}
    (hg : g ∈ db.facts) (ha : g.status = .active)
    (hi : g.identity = ⟨scope, predicate, canonical (identityQualifiers qualifiers)⟩) :
    ∃ old, db.activeFact scope predicate qualifiers = some old ∧ old.identity = g.identity := by
  obtain ⟨hscope, hp, hq⟩ := Identity.mk.inj hi
  cases h : db.activeFact scope predicate qualifiers with
  | none =>
    have hnone := List.find?_eq_none.mp h g
    rw [List.mem_insertionSort, List.mem_filter] at hnone
    refine absurd ?_ (hnone ⟨hg, by simp [hscope, hp, ha]⟩)
    simpa [identityQualifiersMatch] using hq
  | some old =>
    obtain ⟨-, hs, hp', -, hq'⟩ := Db.activeFact_some h
    refine ⟨old, rfl, ?_⟩
    rw [hi, Fact.identity, hs, hp', of_decide_eq_true hq']

/-- A candidate is adjudicated against an active fact of its target identity, if there is one. -/
theorem matchTarget_exact {embedding : Embedding} {old : Fact}
    (h : db.activeFact event.scope c.targetPredicate c.qualifiers = some old)
    (hm : (matchTarget env db c embedding event).1 = .against c' existing) :
    existing = some old := by
  have hr : db.resolveExistingFact env event.scope c.targetPredicate c.qualifiers embedding =
      (some old, db) := by
    rw [Db.resolveExistingFact, h]
  rw [matchTarget, hr] at hm
  dsimp only [Option.some_or] at hm
  split at hm
  · cases hm
  · exact (Match.against.inj hm).2.symm

theorem matchCandidate_exact {embedding : Embedding} {old : Fact}
    (h : db.activeFact event.scope c.targetPredicate c.qualifiers = some old)
    (hm : (matchCandidate env db c embedding event).1 = .against c' existing) :
    existing = some old := by
  have hr : db.resolveExistingFact env event.scope c.targetPredicate c.qualifiers embedding =
      (some old, db) := by
    rw [Db.resolveExistingFact, h]
  rw [matchCandidate] at hm
  split at hm
  · exact matchTarget_exact h hm
  · split at hm
    · cases hm
    · rw [hr] at hm
      exact matchTarget_exact (c := { c with action := .supersede }) h hm

/-! ## Applying an effect -/

theorem Fact.identity_of_content (h : f.content = g.content) : f.identity = g.identity :=
  (congrArg Fact.identity h : f.content.identity = g.content.identity)

theorem Adjudicated.row_identity (h : Adjudicated env db event c c' existing row e) :
    row.identity = c'.identity event := by
  rw [Fact.identity, h.scope, h.predicate, h.qualifiers, identityQualifiers_attributed,
    Candidate.identity]

/-- The facts an overflow rewrites are there. -/
theorem Adjudicated.mem_overflow {old : Fact} {other : Option Fact}
    (h : Adjudicated env db event c c' existing row (.overflow old s other)) :
    ∀ m ∈ old :: other.toList, m ∈ db.facts := by
  obtain ⟨_, hcontra, rfl, -, otherId, -, rfl, -⟩ := h.guard
  intro m hm
  rcases List.mem_cons.mp hm with rfl | hm
  · exact (h.active m hcontra.matched).1
  · exact Db.mem_of_fact? (Option.mem_toList.mp hm)

/-- An active fact after an effect was there before and is untouched, or it is of an identity and in
the form the effect activates. -/
theorem Adjudicated.active_cases (h : Adjudicated env db event c c' existing row e)
    (hf : f ∈ (e.apply env event db row).facts) (ha : f.status = .active) :
    (f ∈ db.facts ∧ f.id ∉ e.touched) ∨
      (f.identity ∈ e.identities event c' ∧ f.memoryForm = e.formOf c' existing) := by
  rcases h.mem_apply hf with ⟨g, hg, rfl, -, hcontent⟩ | ⟨rfl, -, hcontent⟩
  · cases e with
    | replace old =>
      by_cases hid : g.id = old.id
      · rw [Effect.onFact, if_pos hid] at ha
        cases ha
      · rw [Effect.onFact, if_neg hid]
        exact .inl ⟨hg, by simpa [Effect.touched] using hid⟩
    | overflow old s other =>
      by_cases hid : g.id = old.id ∨ ∃ o ∈ other, g.id = o.id
      · obtain ⟨m, hm, hgm⟩ : ∃ m ∈ old :: other.toList, g.id = m.id := by
          rcases hid with hid | ⟨o, ho, hid⟩
          · exact ⟨old, List.mem_cons_self, hid⟩
          · exact ⟨o, List.mem_cons_of_mem _ (Option.mem_toList.mpr ho), hid⟩
        obtain rfl := Db.eq_of_id_eq hg (h.mem_overflow m hm) hgm
        refine .inr ⟨?_, ?_⟩
        · rw [← Fact.identity_of_content hcontent]
          exact List.mem_cons_of_mem _ (List.mem_map_of_mem hm)
        · rw [Effect.onFact, if_pos hid, Fact.asOccurrence_memoryForm]
          rfl
      · rw [Effect.onFact, if_neg hid]
        refine .inl ⟨hg, fun hmem ↦ hid ?_⟩
        obtain ⟨m, hm, hgm⟩ := List.mem_map.mp hmem
        rcases List.mem_cons.mp hm with rfl | hm
        · exact .inl hgm.symm
        · exact .inr ⟨m, Option.mem_toList.mp hm, hgm.symm⟩
    | _ => exact .inl ⟨hg, List.not_mem_nil⟩
  · have hi : (e.onRow env row).identity = c'.identity event :=
      (Fact.identity_of_content hcontent).trans h.row_identity
    cases e with
    | accept | replace => exact .inr ⟨hi ▸ List.mem_cons_self, h.memoryForm⟩
    | overflow => exact .inr ⟨hi ▸ List.mem_cons_self, rfl⟩
    | hold | openConflict | joinConflict => cases h.status.symm.trans ha

/-- An active fact the effect does not touch stays. -/
theorem Adjudicated.untouched (h : Adjudicated env db event c c' existing row e) (hf : f ∈ db.facts)
    (hid : f.id ∉ e.touched) : f ∈ (e.apply env event db row).facts := by
  refine (Effect.mem_apply h.fresh).mpr (.inl ⟨f, hf, ?_⟩)
  cases e with
  | replace old =>
    refine if_neg fun heq : f.id = old.id ↦ hid ?_
    exact heq ▸ List.mem_cons_self
  | overflow old s other =>
    refine if_neg ?_
    rintro (heq | ⟨o, ho, heq⟩)
    · exact hid (heq ▸ List.mem_cons_self)
    · exact hid (heq ▸ List.mem_cons_of_mem _ (List.mem_map_of_mem (Option.mem_toList.mpr ho)))
  | _ => rfl

/-- A candidate that is activated under the predicate it was looked up under has the form of its
identity: it was compared with an active fact of it. -/
theorem Adjudicated.form_of_target (h : Adjudicated env db event c c' existing row e)
    (hm : (matchCandidate env db c (candidateEmbedding env c) event).1 = .against c' existing)
    (hone : db.OneForm) (htarget : c.targetPredicate = c.predicate) :
    ∀ g ∈ db.facts, g.status = .active → g.identity = c'.identity event →
      g.memoryForm = memoryFormOf c' existing := by
  intro g hg ha hgi
  have hcandidate : c'.predicate = c.predicate ∧ c'.qualifiers = c.qualifiers := by
    rcases h.candidate with rfl | rfl
    · exact ⟨rfl, rfl⟩
    · exact ⟨rfl, rfl⟩
  have hgi : g.identity =
      ⟨event.scope, c.targetPredicate, canonical (identityQualifiers c.qualifiers)⟩ := by
    rw [hgi, Candidate.identity, htarget, hcandidate.1, hcandidate.2]
  obtain ⟨old, hold, hoi⟩ := Db.activeFact_isSome hg ha hgi
  obtain rfl := matchCandidate_exact hold hm
  obtain ⟨holdm, -, holda⟩ := h.active old rfl
  exact hone g hg old holdm ha holda hoi.symm

/-- The activation of a candidate that is not relabelled clashes with no other form. -/
theorem Adjudicated.not_otherForm_own (h : Adjudicated env db event c c' existing row e)
    (hm : (matchCandidate env db c (candidateEmbedding env c) event).1 = .against c' existing)
    (hone : db.OneForm) (hkeeps : ¬ Relabels env event db c) (hheld : ¬ HeldBack event existing)
    (hact : c'.action = .supersede ∨ ∀ old ∈ existing, old.memoryForm = .event)
    {ids : List FactId} (hids : c'.action = .supersede → ∀ old ∈ existing, old.id ∈ ids) :
    ¬ db.OtherForm (c'.identity event) (memoryFormOf c' existing) ids := by
  rintro ⟨g, hg, ha, hgids, hgi, hform⟩
  by_cases htarget : c.targetPredicate = c.predicate
  · exact hform (h.form_of_target hm hone htarget g hg ha hgi)
  · refine hkeeps ⟨htarget, c', existing, hm, hheld, hact, g, hg, ha, hgi, hform, ?_⟩
    intro hsupersede old hold heq
    exact hgids (heq ▸ hids hsupersede old hold)

/-- A candidate that keeps the form activates nothing next to another form. -/
theorem Adjudicated.not_otherForm (h : Adjudicated env db event c c' existing row e)
    (hm : (matchCandidate env db c (candidateEmbedding env c) event).1 = .against c' existing)
    (hone : db.OneForm) (hopen : db.OpenSets) (hkeeps : KeepsForm env event db c) :
    ∀ i ∈ e.identities event c', ¬ db.OtherForm i (e.formOf c' existing) e.touched := by
  intro i hi
  have hguard := h.guard
  cases e with
  | accept =>
    obtain rfl := List.mem_singleton.mp hi
    obtain ⟨hheld, hguard⟩ := hguard
    refine h.not_otherForm_own hm hone hkeeps.1 hheld (.inr fun old hold ↦ ?_) ?_
    · -- A scalar with another value would contradict the fact that was found.
      obtain ⟨hcreate, hform⟩ := hguard old hold
      by_contra hne
      have hcreate : c'.action = .create := by
        cases ha : c'.action with
        | create => rfl
        | supersede => exact absurd ha hcreate
      rcases hform with hform | hvalue
      · rw [h.memoryForm, Option.mem_def.mp hold] at hform
        exact hne hform
      · exact h.differs hcreate old hold hne hvalue
    · exact fun hsupersede old hold ↦ absurd hsupersede (hguard old hold).1
  | replace old =>
    obtain rfl := List.mem_singleton.mp hi
    obtain ⟨hheld, rfl, hsupersede⟩ := hguard
    refine h.not_otherForm_own hm hone hkeeps.1 hheld (.inl hsupersede) ?_
    rintro - _ ⟨⟩
    exact List.mem_singleton_self _
  | overflow old s other =>
    obtain ⟨_, hcontra, rfl, hfull, otherId, hother, rfl, -⟩ := hguard
    obtain ⟨hsmem, -, hsopen, hmember⟩ := Db.openConflictSet_some hfull.openSet
    obtain ⟨hold, -, holda⟩ := h.active old hcontra.matched
    have hstate : old.memoryForm = .state := by
      have hform := hcontra.state
      rw [h.memoryForm, hcontra.matched] at hform
      cases hm : old.memoryForm with
      | state => rfl
      | event => exact absurd hm hform
    rintro ⟨g, hg, ha, hgids, hgi, hform⟩
    have hgstate : g.memoryForm = .state := by
      cases hm : g.memoryForm with
      | state => rfl
      | event => exact absurd hm hform
    -- The only active member of the set is the fact that was found.
    have hout : g.id ∉ s.factIds := by
      intro hin
      obtain rfl := hopen.served s hsmem hsopen g hg old hold ha holda hin hmember
      exact hgids List.mem_cons_self
    refine hkeeps.2 ⟨c', old, hcontra.matched ▸ hm, hcontra.matched ▸ hcontra.notHeld, hcontra.create,
      hstate, s, hfull.openSet, hfull.full, g, hg, ha, hgstate, hout, ?_⟩
    rcases List.mem_cons.mp hi with rfl | hi
    · exact .inl hgi
    · obtain ⟨m, hm, rfl⟩ := List.mem_map.mp hi
      refine .inr ⟨m, h.mem_overflow m hm, ?_, hgi⟩
      rcases List.mem_cons.mp hm with rfl | hm
      · exact hmember
      · have hid := (Db.fact?_eq_some_iff.mp (Option.mem_toList.mp hm)).2
        exact hid ▸ List.mem_of_find?_eq_some hother
  | hold | openConflict | joinConflict => cases hi

/-- Applying an effect without a clash keeps one form per identity. -/
theorem Db.OneForm.apply (hone : db.OneForm) (h : Adjudicated env db event c c' existing row e)
    (hno : ∀ i ∈ e.identities event c', ¬ db.OtherForm i (e.formOf c' existing) e.touched) :
    (e.apply env event db row).OneForm := by
  intro f hf g hg hfa hga hfg
  rcases h.active_cases hf hfa with ⟨hf, hft⟩ | ⟨hfi, hfm⟩ <;>
    rcases h.active_cases hg hga with ⟨hg, hgt⟩ | ⟨hgi, hgm⟩
  · exact hone f hf g hg hfa hga hfg
  · rw [hgm]
    exact not_not.mp fun hne ↦ hno _ hgi ⟨f, hf, hfa, hft, hfg, hne⟩
  · rw [hfm]
    exact (not_not.mp fun hne ↦ hno _ hfi ⟨g, hg, hga, hgt, hfg.symm, hne⟩).symm
  · exact hfm.trans hgm.symm

/-- The form of an identity only changes in an overflow, from `state` to `event`. -/
theorem Adjudicated.form_step (h : Adjudicated env db event c c' existing row e) (hone : db.OneForm)
    (hone' : (e.apply env event db row).OneForm) (hf : f ∈ db.facts) (hfa : f.status = .active)
    (hg : g ∈ (e.apply env event db row).facts) (hga : g.status = .active)
    (hfg : f.identity = g.identity) :
    f.memoryForm = g.memoryForm ∨ (f.memoryForm = .state ∧ g.memoryForm = .event ∧
      ∃ old s other, e = .overflow old s other) := by
  rcases h.active_cases hg hga with ⟨hg, -⟩ | ⟨-, hgm⟩
  · exact .inl (hone f hf g hg hfa hga hfg)
  · by_cases hft : f.id ∈ e.touched
    · cases e with
      | replace old =>
        obtain ⟨-, rfl, -⟩ := h.guard
        obtain rfl := Db.eq_of_id_eq hf (h.active old rfl).1 (List.mem_singleton.mp hft)
        exact .inl hgm.symm
      | overflow old s other =>
        cases hfm : f.memoryForm with
        | state => exact .inr ⟨rfl, hgm, old, s, other, rfl⟩
        | event => exact .inl hgm.symm
      | _ => cases hft
    · exact .inl (hone' f (h.untouched hf hft) g hg hfa hga hfg)

/-! ## Members of one open set -/

/-- The members of an open set have one form. -/
def Db.SetForms (db : Db) : Prop :=
  ∀ s ∈ db.conflictSets, s.status = .open → ∀ f ∈ db.facts, ∀ g ∈ db.facts, f.id ∈ s.factIds →
    g.id ∈ s.factIds → f.memoryForm = g.memoryForm

namespace Db.SetForms

/-- Sets that stay open, and members that keep their form. -/
theorem mono (h : db.SetForms) (hsets : ∀ s ∈ db'.conflictSets, s.status = .open →
    s ∈ db.conflictSets ∧ ∀ f' ∈ db'.facts, f'.id ∈ s.factIds → ∃ f ∈ db.facts, f.id = f'.id ∧
      f.memoryForm = f'.memoryForm) : db'.SetForms := by
  intro s hs ho f' hf' g' hg' hfs hgs
  obtain ⟨hs, hmem⟩ := hsets s hs ho
  obtain ⟨f, hf, hfid, hfm⟩ := hmem f' hf' hfs
  obtain ⟨g, hg, hgid, hgm⟩ := hmem g' hg' hgs
  rw [← hfm, ← hgm]
  exact h s hs ho f hf g hg (hfid ▸ hfs) (hgid ▸ hgs)

/-- A rewriting that keeps the form of every fact. -/
theorem updateFact (h : db.SetForms) {g : Fact → Fact}
    (hg : ∀ f, (g f).id = f.id ∧ (g f).memoryForm = f.memoryForm) : (db.updateFact id g).SetForms := by
  refine h.mono fun s hs _ ↦ ⟨hs, fun f' hf' _ ↦ ?_⟩
  obtain ⟨f, hf, rfl⟩ := (Db.mem_updateFact fun f ↦ (hg f).1).mp hf'
  refine ⟨f, hf, ?_⟩
  split
  · exact ⟨(hg f).1.symm, (hg f).2.symm⟩
  · exact ⟨rfl, rfl⟩

/-- Applying an effect: a newcomer inherits the form of the fact it contradicts. -/
theorem apply (h : db.SetForms) (hopen : db.OpenSets)
    (hadj : Adjudicated env db event c c' existing row e) : (e.apply env event db row).SetForms := by
  -- A member of a set that does not overflow keeps its form.
  have old {s : ConflictSet} (hs : s ∈ db.conflictSets) (ho : s.status = .open)
      (hne : ∀ old s₀ other, e = .overflow old s₀ other → s ≠ s₀) {f' : Fact}
      (hf' : f' ∈ (e.apply env event db row).facts) (hid : f'.id ∈ s.factIds) :
      ∃ f ∈ db.facts, f.id = f'.id ∧ f.memoryForm = f'.memoryForm := by
    rcases hadj.mem_apply hf' with ⟨f, hf, rfl, hidf, -⟩ | ⟨-, hidf, -⟩
    · refine ⟨f, hf, hidf, ?_⟩
      rcases hopen.onFact_of_open hadj hs ho (hidf ▸ hid) hne with he | ⟨old, -, -, he⟩
      · rw [he]
      · rw [he]
        rfl
    · exact absurd (hidf ▸ hid) (hadj.notMem_set hs)
  -- The new row enters a set with the form of the matched fact.
  have new {m : Fact} (hx : existing = some m) (hrow : e.onRow env row = row) {f' : Fact}
      (hf' : f' ∈ (e.apply env event db row).facts) (hid : f'.id = row.id) :
      f'.memoryForm = m.memoryForm := by
    rcases hadj.mem_apply hf' with ⟨f, hf, -, hidf, -⟩ | ⟨rfl, -, -⟩
    · exact absurd (hidf.trans hid) (hadj.fresh f hf)
    · rw [hrow, hadj.memoryForm, hx]
      rfl
  intro s' hs' ho f' hf' g' hg' hfs hgs
  rcases hopen.open_onSets hadj hs' ho with
    ⟨s, hs, hos, -, -, -, hne, rfl | ⟨rfl, rfl⟩⟩ | ⟨rfl, rfl⟩ | ⟨m, rfl, hx, rfl, -⟩
  · obtain ⟨f, hf, hfid, hfm⟩ := old hs hos hne hf' hfs
    obtain ⟨g, hg, hgid, hgm⟩ := old hs hos hne hg' hgs
    rw [← hfm, ← hgm]
    exact h s' hs hos f hf g hg (hfid ▸ hfs) (hgid ▸ hgs)
  · obtain ⟨m, hcontra, hset, -⟩ := hadj.guard
    obtain ⟨hm, -⟩ := hadj.active m hcontra.matched
    obtain ⟨-, -, -, hms⟩ := Db.openConflictSet_some hset
    have form {f' : Fact} (hf' : f' ∈ ((Effect.joinConflict s).apply env event db row).facts)
        (hid : f'.id ∈ (s.extend row.id).factIds) : f'.memoryForm = m.memoryForm := by
      rcases List.mem_append.mp hid with hid | hid
      · obtain ⟨f, hf, hfid, hfm⟩ := old hs hos hne hf' hid
        rw [← hfm]
        exact h s hs hos f hf m hm (hfid ▸ hid) hms
      · exact new hcontra.matched rfl hf' (List.mem_singleton.mp hid)
    exact (form hf' hfs).trans (form hg' hgs).symm
  · rw [Db.eq_of_id_eq hf' hg'
      ((List.mem_singleton.mp hfs).trans (List.mem_singleton.mp hgs).symm)]
  · obtain ⟨hm, -⟩ := hadj.active m hx
    have form {f' : Fact} (hf' : f' ∈ ((Effect.openConflict m).apply env event db row).facts)
        (hid : f'.id ∈ [m.id, row.id]) : f'.memoryForm = m.memoryForm := by
      rcases List.mem_pair.mp hid with hid | hid
      · rcases hadj.mem_apply hf' with ⟨f, hf, rfl, hidf, -⟩ | ⟨-, hidf, -⟩
        · obtain rfl := Db.eq_of_id_eq hf hm (hidf.trans hid)
          rfl
        · exact absurd (hid.symm.trans hidf) (hadj.fresh m hm)
      · exact new hx rfl hf' hid
    exact (form hf' hfs).trans (form hg' hgs).symm

end Db.SetForms

/-- The members of every open set have one form, whatever the operations. -/
theorem setForms_invariant (env : Env) (allowed : Op → Prop) : Invariant env allowed
    (fun _ _ _ _ ↦ True) fun db ↦ db.OpenSets ∧ db.SetForms where
  empty := ⟨(openSets_invariant env allowed).empty, by rintro _ ⟨⟩⟩
  frame db events traces h := ⟨(openSets_invariant env allowed).frame db events traces h.1, h.2⟩
  candidate now event db c result db' result' hu h _ ha := by
    refine ⟨applyCandidate_openSets hu h.1 ha, ?_⟩
    cases applyCandidate_applied hu ha with
    | counted => exact h.2
    | reinforced aliases f => exact h.2.updateFact (g := (·.reinforcedBy event)) fun _ ↦ ⟨rfl, rfl⟩
    | written aliases c' existing row e _ hadj => exact h.2.apply h.1 hadj
  other db op db' hop hallowed hu h he := by
    refine ⟨(openSets_invariant env allowed).other db op db' hop hallowed hu h.1 he, ?_⟩
    by_cases hres : op.IsNotResolution
    · refine Op.exec_withdraws (fun db id g hg h ↦ ?_) (fun db scope h ↦ ?_) hop hres h.2 he
      · exact h.updateFact fun f ↦ ⟨(hg f).id, (hg f).memoryForm⟩
      · exact h.mono fun s hs _ ↦ ⟨(Table.mem_filter.mp hs).1,
          fun f hf _ ↦ ⟨f, (Table.mem_filter.mp hf).1, rfl, rfl⟩⟩
    · cases op with
      | resolve now projectId id keep =>
        obtain ⟨s, db₁, hc, ho, -, hwalk, rfl⟩ := resolveConflict_eq_ok he
        obtain ⟨hs, rfl⟩ := Table.get?_eq_some_iff.mp hc
        refine h.2.mono fun t ht hto ↦ ?_
        obtain ⟨ht, hsame⟩ := h.1.open_resolve hs ho (resolveMembers_moves hwalk) ht hto
        exact ⟨ht, fun f hf hid ↦ ⟨f, Db.mem_of_fact? ((hsame f.id hid).symm.trans
          (Db.fact?_of_mem hf)), rfl, rfl⟩⟩
      | _ => exact absurd trivial hres

/-! ## Resolving a set -/

/-- An active fact after a resolution was active before and is no loser, or it is the kept one. -/
theorem resolveMembers_active {ids : List FactId}
    (h : ids.foldlM (resolveMember now keep) db = .ok db') (hf : f ∈ db'.facts)
    (ha : f.status = .active) :
    (f ∈ db.facts ∧ (f.id ∈ ids → f.id = keep)) ∨
      ∃ k ∈ db.facts, k.id = keep ∧ k.status ≠ .active ∧ f = k.moveTo .active now := by
  obtain ⟨g, hg, hr⟩ := exists_resolves h hf
  cases hr with
  | same => exact .inl ⟨hg, fun hid ↦ (resolveMembers_status h hf hid).mp ha⟩
  | kept hid hne => exact .inr ⟨g, hg, hid, hne, rfl⟩
  | lost => cases ha

/-- Resolving a set without a clash keeps one form per identity. -/
theorem Db.OneForm.resolve {ids : List FactId} (hone : db.OneForm)
    (h : ids.foldlM (resolveMember now keep) db = .ok db')
    (hno : ∀ k ∈ db.fact? keep, k.status ≠ .active → ¬ db.OtherForm k.identity k.memoryForm ids) :
    db'.OneForm := by
  -- The kept fact and a fact that was active before.
  have kept {k f : Fact} (hk : k ∈ db.facts) (hid : k.id = keep) (hne : k.status ≠ .active)
      (hf : f ∈ db.facts) (ha : f.status = .active) (hmem : f.id ∈ ids → f.id = keep)
      (hi : f.identity = k.identity) : f.memoryForm = k.memoryForm := by
    have hnot : f.id ∉ ids := by
      intro hids
      obtain rfl := Db.eq_of_id_eq hf hk ((hmem hids).trans hid.symm)
      exact hne ha
    exact not_not.mp fun hform ↦
      hno k (hid ▸ Db.fact?_of_mem hk) hne ⟨f, hf, ha, hnot, hi, hform⟩
  intro f hf g hg hfa hga hfg
  rcases resolveMembers_active h hf hfa with ⟨hf, hfm⟩ | ⟨k, hk, hkid, hne, rfl⟩ <;>
    rcases resolveMembers_active h hg hga with ⟨hg, hgm⟩ | ⟨k', hk', hkid', hne', rfl⟩
  · exact hone f hf g hg hfa hga hfg
  · exact (kept hk' hkid' hne' hf hfa hfm hfg :)
  · exact (kept hk hkid hne hg hga hgm hfg.symm :).symm
  · rw [Db.eq_of_id_eq hk hk' (hkid.trans hkid'.symm)]

/-- A resolution does not change the form of an identity. -/
theorem Db.OneForm.resolve_same (hone : db.OneForm) (hforms : db.SetForms)
    (hs : s ∈ db.conflictSets) (ho : s.status = .open) (hk : keep ∈ s.factIds)
    (h : s.factIds.foldlM (resolveMember now keep) db = .ok db') (hone' : db'.OneForm)
    (hf : f ∈ db.facts) (hfa : f.status = .active) (hg : g ∈ db'.facts) (hga : g.status = .active)
    (hfg : f.identity = g.identity) : f.memoryForm = g.memoryForm := by
  rcases resolveMembers_active h hg hga with ⟨hg, -⟩ | ⟨k, hkm, hkid, -, rfl⟩
  · exact hone f hf g hg hfa hga hfg
  · by_cases hfs : f.id ∈ s.factIds
    · exact hforms s hs ho f hf k hkm hfs (hkid ▸ hk)
    · have hf' : f ∈ db'.facts :=
        Db.mem_of_fact? (((resolveMembers_moves h).other f.id hfs).trans (Db.fact?_of_mem hf))
      exact hone' f hf' _ hg hfa hga hfg

/-! ## One write -/

/-- The active facts of an identity keep its form, or the write reclassifies it. -/
def FormStep (env : Env) (db db' : Db) : Prop :=
  ∀ f ∈ db.facts, ∀ f' ∈ db'.facts, f.status = .active → f'.status = .active →
    f.identity = f'.identity → f.memoryForm = f'.memoryForm ∨
      (f.memoryForm = .state ∧ f'.memoryForm = .event ∧ Reclassifies env db db')

/-- A write that activates no fact. -/
theorem Db.OneForm.of_active (hone : db.OneForm)
    (h : ∀ f' ∈ db'.facts, f'.status = .active → ∃ f ∈ db.facts, f.status = .active ∧
      f.identity = f'.identity ∧ f.memoryForm = f'.memoryForm) :
    db'.OneForm ∧ FormStep env db db' := by
  refine ⟨fun f' hf' g' hg' hfa hga hfg ↦ ?_, fun f hf g' hg' hfa hga hfg ↦ ?_⟩
  · obtain ⟨f, hf, ha, hi, hm⟩ := h f' hf' hfa
    obtain ⟨g, hg, ha', hi', hm'⟩ := h g' hg' hga
    rw [← hm, ← hm']
    exact hone f hf g hg ha ha' (hi.trans (hfg.trans hi'.symm))
  · obtain ⟨g, hg, ha, hi, hm⟩ := h g' hg' hga
    rw [← hm]
    exact .inl (hone f hf g hg hfa ha (hfg.trans hi.symm))

/-- Forget and feedback leave the facts that stay active as they are. -/
theorem Op.exec_active {op : Op} (hop : ¬ op.IsConsolidation) (hres : op.IsNotResolution)
    (h : op.exec env db = .ok db') : ∀ f ∈ db'.facts, f.status = .active → f ∈ db.facts := by
  refine Op.exec_withdraws (I := fun db' ↦ ∀ f ∈ db'.facts, f.status = .active → f ∈ db.facts)
    (fun db₁ id g hg hI f' hf' ha ↦ ?_) (fun db₁ scope hI f hf ↦ hI f (Table.mem_filter.mp hf).1)
    hop hres (fun f hf _ ↦ hf) h
  obtain ⟨f, hf, rfl⟩ := (Db.mem_updateFact fun f ↦ (hg f).id).mp hf'
  split at ha
  · exact absurd ha (hg f).status
  · next hne =>
    rw [if_neg hne]
    exact hI f hf ha

/-- **One write.**  A write that meets the conditions keeps one form per identity, and changes a form
only in an overflow. -/
theorem Write.Does.form {w : Write} (h : w.Does env db db')
    (hw : w.Meets env KeepsForm ResolvesInForm db) (hu : db.UniqueActive) (hopen : db.OpenSets)
    (hforms : db.SetForms) (hone : db.OneForm) : db'.OneForm ∧ FormStep env db db' := by
  cases h with
  | frame => exact hone.of_active fun f hf ha ↦ ⟨f, hf, ha, rfl, rfl⟩
  | @candidate now event c result result' _ h =>
    cases applyCandidate_applied hu h with
    | counted => exact hone.of_active fun f hf ha ↦ ⟨f, hf, ha, rfl, rfl⟩
    | reinforced aliases d =>
      refine hone.of_active fun f' hf' ha ↦ ?_
      obtain ⟨f, hf, rfl⟩ := mem_reinforced.mp hf'
      refine ⟨f, hf, ?_⟩
      split at ha <;> split <;> exact ⟨ha, rfl, rfl⟩
    | written aliases c' existing row e hm hadj =>
      have hone' := hone.apply hadj (hadj.not_otherForm hm hone hopen hw)
      refine ⟨hone', fun f hf g hg hfa hga hfg ↦ ?_⟩
      refine (hadj.form_step hone hone' hf hfa hg hga hfg).imp_right ?_
      rintro ⟨hstate, hevent, old, s, other, rfl⟩
      exact ⟨hstate, hevent, now, event, c, result, _, h, rfl⟩
  | @other op _ hop h =>
    by_cases hres : op.IsNotResolution
    · exact hone.of_active fun f hf ha ↦ ⟨f, Op.exec_active hop hres h f hf ha, ha, rfl, rfl⟩
    · cases op with
      | resolve now projectId id keep =>
        obtain ⟨s, db₁, hc, ho, hk, hwalk, rfl⟩ := resolveConflict_eq_ok h
        have hs := (Table.get?_eq_some_iff.mp hc).1
        have hone' : db₁.OneForm := hone.resolve hwalk (hw s hc)
        exact ⟨hone', fun f hf g hg hfa hga hfg ↦
          .inl (hone.resolve_same hforms hs ho hk hwalk hone' hf hfa hg hga hfg)⟩
      | _ => exact absurd trivial hres

/-! ## Runs -/

/-- Every ledger of a run that meets the conditions has one form per identity, and every write of it
changes a form only in an overflow. -/
theorem run_form {dbs : List Db}
    (h : (Db.empty :: dbs).IsChain (Step env (Write.Meets env KeepsForm ResolvesInForm))) :
    (∀ db ∈ dbs, db.OneForm) ∧ dbs.IsChain (FormStep env) := by
  have hinv : ∀ db ∈ Db.empty :: dbs,
      Written env (Write.Allowed fun _ ↦ True) db ∧ db.OneForm := by
    refine List.IsChain.induction _ _ h ?_ fun _ ↦ ⟨.refl, by rintro _ ⟨⟩⟩
    rintro db db' ⟨w, hw, hdoes⟩ ⟨hwritten, hone⟩
    obtain ⟨hopen, hforms⟩ := (setForms_invariant env fun _ ↦ True).written hwritten
    refine ⟨hwritten.tail ⟨w, ?_, hdoes⟩, (hdoes.form hw hwritten.unique hopen hforms hone).1⟩
    cases w <;> trivial
  refine ⟨fun db hdb ↦ (hinv db (List.mem_cons_of_mem _ hdb)).2, ?_⟩
  refine List.IsChain.imp_of_mem_imp (fun db db' hdb _ hstep ↦ ?_) h.tail
  obtain ⟨hwritten, hone⟩ := hinv db (List.mem_cons_of_mem _ hdb)
  obtain ⟨w, hw, hdoes⟩ := hstep
  obtain ⟨hopen, hforms⟩ := (setForms_invariant env fun _ ↦ True).written hwritten
  exact (hdoes.form hw hwritten.unique hopen hforms hone).2

/-- With one form per identity, an identity that is served has a form. -/
theorem Db.OneForm.formIs (hone : db.OneForm) {i : Identity} (h : db.Serves i) :
    db.FormIs i .state ∨ db.FormIs i .event := by
  obtain ⟨f, hf, ha, rfl⟩ := h
  have form (m : MemoryForm) (hm : f.memoryForm = m) : db.FormIs f.identity m :=
    ⟨⟨f, hf, ha, rfl⟩, fun g hg hga hgf ↦ (hone g hg f hf hga ha hgf).trans hm⟩
  cases hm : f.memoryForm with
  | state => exact .inl (form .state hm)
  | event => exact .inr (form .event hm)

/-- The city of the subject. -/
def Sample.cityIdentity : Identity := ⟨Sample.scope, "city", canonical .empty⟩

end Haki
