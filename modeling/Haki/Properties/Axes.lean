import Haki.Data.Dict
import Haki.Sample

/-!
# The two axes of a fact

A fact is found by the vector of its text and by the text itself.  The vector
is computed from the candidate, the text from the value that is stored.  They
describe the same text unless a supersede carries a key over or removes one.
-/

namespace Haki

open Data Control

variable {env : Env} {db db' : Db} {event : Event} {c c' : Candidate} {existing : Option Fact}
  {f g : Fact}

/-- `EMBEDDING_DIM`. -/
def embeddingDim : Nat := 1024

/-- What `_backfill_one` writes for a row with this text. -/
def backfillEmbedding (env : Env) (text : Option String) : Embedding :=
  match text with
  | some text => if strip isSpace text.toList = [] then .replicate embeddingDim 0 else env.embed text
  | none => .replicate embeddingDim 0

/-- The vector of the fact is the one the backfill script would compute from its text. -/
def Fact.AxesAgree (env : Env) (f : Fact) : Prop :=
  f.embedding = some (backfillEmbedding env f.searchText)

instance (env : Env) (f : Fact) : Decidable (f.AxesAgree env) := inferInstanceAs (Decidable (_ = _))

theorem strip_ne_nil {ch : Char} {cs : List Char} (hch : isSpace ch = false) (h : ch ∈ cs) :
    strip isSpace cs ≠ [] := by
  intro hstrip
  have hsolid : ch ∈ solid isSpace cs := List.mem_filter.mpr ⟨h, by rw [hch]; rfl⟩
  rw [← solid_strip, hstrip] at hsolid
  cases hsolid

/-- The text of a fact is never blank. -/
theorem backfillEmbedding_searchText (env : Env) (predicate : String) (value : Dict) :
    backfillEmbedding env (some (searchText predicate value)) =
      env.embed (searchText predicate value) := by
  refine if_neg (strip_ne_nil (by decide : isSpace (Char.ofNat 123) = false) ?_)
  simp [searchText, canonical, Dict.dumps, dumpsObject]

/-- The candidate supersedes an active fact without restating all of it, and the embedder tells the
text of the candidate from the text of what is stored. -/
def CarriesText (env : Env) (event : Event) (db : Db) (c : Candidate) : Prop :=
  ∃ c' old, (matchCandidate env db c (candidateEmbedding env c) event).1 = .against c' (some old) ∧
    c'.action = .supersede ∧ ¬ HeldBack event (some old) ∧ ¬ old.value.Restates c.value ∧
    env.embed (searchText c.predicate c.value) ≠
      env.embed (searchText c.predicate (old.value.revise c.value))

/-- A row stores the candidate's own value, or what a supersede leaves of the two. -/
theorem storedValue_cases (c : Candidate) (existing : Option Fact) (event : Event) :
    (storedValue c existing event = c.value ∧
      ∀ old, existing = some old → c.action = .supersede → HeldBack event existing) ∨
    ∃ old, existing = some old ∧ c.action = .supersede ∧ ¬ HeldBack event existing ∧
      storedValue c existing event = old.value.revise c.value := by
  rw [storedValue]
  split
  · next hheld => exact .inl ⟨rfl, fun _ _ _ ↦ hheld⟩
  · next hheld =>
    rw [carryForward, inheritedFrom]
    split
    · next old hold =>
      split at hold
      · next hact => exact .inr ⟨old, hold, hact, hheld, rfl⟩
      · cases hold
    · next hnone =>
      refine .inl ⟨rfl, fun old hold hact ↦ ?_⟩
      rw [if_pos hact, hold] at hnone
      cases hnone

/-- The vector and the text of the row a candidate adds. -/
theorem applyCandidate_axes {result result' : JobResult} (hu : db.UniqueActive)
    (h : applyCandidate env db c (candidateEmbedding env c) event result = .ok (db', result'))
    (hg : g ∈ db'.facts) (hnew : db.fact? g.id = none) :
    ∃ c' existing, (matchCandidate env db c (candidateEmbedding env c) event).1 =
        .against c' existing ∧
      g.embedding = some (env.embed (searchText c.predicate c.value)) ∧
      g.searchText = some (searchText c.predicate (storedValue c' existing event)) := by
  have hold : ∀ f ∈ db.facts, f.id ≠ g.id := fun f hf hid ↦ by
    rw [← hid, Db.fact?_of_mem hf] at hnew
    cases hnew
  cases hm : (matchCandidate env db c (candidateEmbedding env c) event).1 with
  | duplicate old =>
    cases applyCandidate_applied hu h with
    | counted => exact absurd rfl (hold g hg)
    | reinforced =>
      obtain ⟨f, hf, rfl⟩ := mem_reinforced.mp hg
      refine absurd ?_ (hold f hf)
      split <;> rfl
    | written _ _ _ _ _ hm' => cases hm.symm.trans hm'
  | against c' existing =>
    obtain ⟨aliases, row, e, hrow, -, -, rfl, -⟩ := applyCandidate_written hu hm h
    rcases (Effect.mem_apply (candidateRow_fresh hrow)).mp hg with ⟨f, hf, rfl⟩ | rfl
    · exact absurd (e.onFact_id env event f).symm (hold f hf)
    · have hcontent : (e.onRow env row).content = row.content := e.onRow_content row
      have hpredicate : c'.predicate = c.predicate := by
        rcases (matchCandidate_against hm).candidate with rfl | rfl <;> rfl
      obtain ⟨range, observedAt, rfl⟩ := candidateRow_eq_ok hrow
      refine ⟨c', existing, rfl, ?_, ?_⟩
      · exact (congrArg Fact.embedding hcontent)
      · rw [← hpredicate]
        exact (congrArg Fact.searchText hcontent)

/-- **One text, two axes.**  The vector of a row a candidate adds is the embedder's vector of the
row's text exactly when the candidate carries no text over. -/
theorem axesAgree_iff {result result' : JobResult} (hu : db.UniqueActive)
    (h : applyCandidate env db c (candidateEmbedding env c) event result = .ok (db', result'))
    (hg : g ∈ db'.facts) (hnew : db.fact? g.id = none) :
    g.AxesAgree env ↔ ¬ CarriesText env event db c := by
  obtain ⟨c', existing, hm, hembedding, htext⟩ := applyCandidate_axes hu h hg hnew
  have hvalue : c'.value = c.value := by
    rcases (matchCandidate_against hm).candidate with rfl | rfl <;> rfl
  rw [Fact.AxesAgree, hembedding, htext, backfillEmbedding_searchText, Option.some_inj]
  constructor
  · rintro heq ⟨d, old, hm', hact, hheld, -, hne⟩
    cases hm.symm.trans hm'
    rcases storedValue_cases c' (some old) event with ⟨-, h⟩ | ⟨_, ⟨⟩, -, -, hstored⟩
    · exact hheld (h old rfl hact)
    · rw [hstored, hvalue] at heq
      exact hne heq
  · intro hno
    rcases storedValue_cases c' existing event with ⟨hstored, -⟩ | ⟨old, rfl, hact, hheld, hstored⟩
    · rw [hstored, hvalue]
    · rw [hstored, hvalue]
      by_contra hne
      refine hno ⟨c', old, hm, hact, hheld, fun hrestates ↦ hne ?_, hne⟩
      rw [searchText, searchText,
        Dict.canonical_of_same (Dict.revise_same_iff.mpr hrestates)]

/-- A trip to Lyon is planned. -/
def Sample.tripToLyon : Db :=
  runOps .sample .empty (Sample.observe (Sample.event 1 .trusted)
    [{ Sample.create "trip" "planned" with
      value := (Sample.entry "status" "planned").set "city" (.str "Lyon") }])

theorem Sample.tripToLyon_reachable : Reachable .sample Op.IsConsolidation Sample.tripToLyon :=
  ⟨_, Sample.observe_isConsolidation, rfl⟩

/-- The trip is booked. -/
def Sample.bookedTrip (value : Dict) : Candidate :=
  { Sample.supersede "trip" "booked" with value := value }

/-- A message that says all of the trip again embeds the text that is stored. -/
theorem axesAgree_iff_booked :
    let c := Sample.bookedTrip ((Sample.entry "status" "booked").set "city" (.str "Lyon"))
    ∃ db' result', applyCandidate .sample Sample.tripToLyon c (candidateEmbedding .sample c)
        (Sample.event 2 .trusted) {} = .ok (db', result') ∧
      ∃ g ∈ db'.facts, g.supersedesId = some ⟨1, 0⟩ ∧ g.AxesAgree .sample := by
  intro c
  obtain ⟨⟨db', result'⟩, h⟩ := exists_eq_ok (x := applyCandidate .sample Sample.tripToLyon c
    (candidateEmbedding .sample c) (Sample.event 2 .trusted) {}) (by decide +kernel)
  have hfacts : ∀ s ∈ (applyCandidate .sample Sample.tripToLyon c (candidateEmbedding .sample c)
      (Sample.event 2 .trusted) {}).toOption, ∃ g ∈ s.1.facts,
        Sample.tripToLyon.fact? g.id = none ∧ g.supersedesId = some ⟨1, 0⟩ := by decide +kernel
  have htext : ∀ f ∈ Sample.tripToLyon.facts, searchText c.predicate c.value =
      searchText c.predicate (f.value.revise c.value) := by decide +kernel
  obtain ⟨g, hg, hnew, hsupersedes⟩ := hfacts _ (toOption_eq_some.mpr h)
  refine ⟨db', result', h, g, hg, hsupersedes,
    (axesAgree_iff Sample.tripToLyon_reachable.unique h hg hnew).mpr ?_⟩
  rintro ⟨c', old, hm, -, -, -, hne⟩
  exact hne (congrArg Env.sample.embed (htext old ((matchCandidate_against hm).active old rfl).1))

/-- A trip is planned, then booked: the second message says nothing about the city. -/
def Sample.booking : List Op :=
  Sample.observe (Sample.event 1 .trusted)
      [{ Sample.create "trip" "planned" with
        value := (Sample.entry "status" "planned").set "city" (.str "Lyon") }] ++
    Sample.observe (Sample.event 2 .trusted)
      [{ Sample.supersede "trip" "booked" with value := Sample.entry "status" "booked" }]

/-- The text of the booked trip has the city, its vector is that of a text without. -/
theorem carried_text_not_embedded :
    (∀ op ∈ Sample.booking, op.IsConsolidation) ∧
    ∃ f ∈ (runOps .sample .empty Sample.booking).facts, f.status = .active ∧
      ¬ f.AxesAgree .sample := by
  refine ⟨by simp [Sample.booking, Sample.observe, Op.IsConsolidation], ?_⟩
  decide +kernel

end Haki
