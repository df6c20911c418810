import Haki.Data.Ascending
import Haki.Sample

/-!
# What the anti-echo gate takes for an echo

The gate asks two questions of the facts served lately: is one of them near the
candidate, and does one of them have its value.  An echo repeats one fact; the
two answers may come from two.
-/

namespace Haki

open Data

variable {env : Env} {db : Db} {event : Event} {c : Candidate} {f : Fact}

/-- The fact is in one of the packets served lately. -/
def Db.RecentlyServed (db : Db) (scope : Scope) (f : Fact) : Prop :=
  f ∈ db.facts ∧ f.id ∈ recentlyServedFactIds db scope

/-- The fact lies within `ANTI_ECHO_MAX_DISTANCE` of the candidate. -/
def Fact.NearTo (env : Env) (c : Candidate) (f : Fact) : Prop :=
  ∃ v ∈ f.embedding, env.cosineDistance v (candidateEmbedding env c) ≤ antiEchoMaxDistance

/-- The fact has the value of the candidate. -/
def Fact.SaysThat (c : Candidate) (f : Fact) : Prop := canonical f.value = canonical c.value

instance (env : Env) (c : Candidate) (f : Fact) : Decidable (f.NearTo env c) :=
  inferInstanceAs (Decidable (∃ _ ∈ f.embedding, _))

/-- The least of a list of numbers is under a bound exactly when one of them is. -/
theorem head?_insertionSort_le {l : List ℚ} {bound : ℚ} :
    (∃ d ∈ (l.insertionSort (· ≤ ·)).head?, d ≤ bound) ↔ ∃ d ∈ l, d ≤ bound := by
  constructor
  · rintro ⟨d, hd, hle⟩
    exact ⟨d, (List.mem_insertionSort _).mp (List.mem_of_mem_head? hd), hle⟩
  · rintro ⟨d, hd, hle⟩
    obtain ⟨d₀, hd₀, hle₀⟩ := head?_ascending_le id hd
    exact ⟨d₀, hd₀, hle₀.trans hle⟩

/-- The gate rejects when some served fact is near and some served fact has the value. -/
theorem antiEchoReason_eq_some_iff (hcreate : c.action = .create) {reason : RejectReason} :
    antiEchoReason env event db c = some reason ↔ reason = .echoOfContext ∧
      (∃ f, db.RecentlyServed event.scope f ∧ f.NearTo env c) ∧
        ∃ f, db.RecentlyServed event.scope f ∧ f.SaysThat c := by
  rw [antiEchoReason, if_neg (by simp [hcreate]), echoRejectReason]
  set served := db.facts.rows.filter fun f ↦ f.id ∈ recentlyServedFactIds db event.scope with hserved
  set distances := served.filterMap fun f ↦ f.embedding.map fun v ↦
    env.cosineDistance v (candidateEmbedding env c) with hdistances
  have hmem {f : Fact} : f ∈ served ↔ db.RecentlyServed event.scope f := by
    simp [hserved, Db.RecentlyServed]
  have hnear : (∃ d ∈ (distances.insertionSort (· ≤ ·)).head?, d ≤ antiEchoMaxDistance) ↔
      ∃ f, db.RecentlyServed event.scope f ∧ f.NearTo env c := by
    rw [head?_insertionSort_le]
    simp only [hdistances, List.mem_filterMap, hmem, Fact.NearTo]
    constructor
    · rintro ⟨d, ⟨f, hf, hd⟩, hle⟩
      obtain ⟨v, hv, rfl⟩ := Option.map_eq_some_iff.mp hd
      exact ⟨f, hf, v, hv, hle⟩
    · rintro ⟨f, hf, v, hv, hle⟩
      exact ⟨_, ⟨f, hf, Option.map_eq_some_iff.mpr ⟨v, hv, rfl⟩⟩, hle⟩
  have hsays : canonical c.value ∈ (served.map fun f ↦ canonical f.value) ↔
      ∃ f, db.RecentlyServed event.scope f ∧ f.SaysThat c := by
    simp only [List.mem_map, hmem, Fact.SaysThat]
  rw [← hnear, ← hsays]
  cases (distances.insertionSort (· ≤ ·)).head? with
  | none => simp
  | some d =>
    by_cases hv : canonical c.value ∈ served.map fun f ↦ canonical f.value
    · by_cases hd : d ≤ antiEchoMaxDistance
      · simp [hv, hd, eq_comm]
      · simp [hv, hd]
    · simp [hv]

/-- Only a single served fact that is near and has the value makes the candidate an echo; any other
candidate reaches the ledger. -/
structure EchoPrecise (env : Env) (event : Event) (db : Db) (c : Candidate) : Prop where
  echo : antiEchoReason env event db c = some .echoOfContext →
    ∃ f, db.RecentlyServed event.scope f ∧ f.NearTo env c ∧ f.SaysThat c
  update : (¬ ∃ f, db.RecentlyServed event.scope f ∧ f.NearTo env c ∧ f.SaysThat c) →
    ∀ result, applyAdmitted env event (db, result) c =
      applyCandidate env db c (candidateEmbedding env c) event result

/-- **Precision of the anti-echo gate.**  It is precise exactly when, of the facts served lately,
none is near the candidate, or none has its value, or one is both. -/
theorem echoPrecise_iff (hcreate : c.action = .create) :
    EchoPrecise env event db c ↔
      (¬ ∃ f, db.RecentlyServed event.scope f ∧ f.NearTo env c) ∨
      (¬ ∃ f, db.RecentlyServed event.scope f ∧ f.SaysThat c) ∨
      ∃ f, db.RecentlyServed event.scope f ∧ f.NearTo env c ∧ f.SaysThat c := by
  rw [← or_assoc, ← not_and_or, ← imp_iff_not_or]
  constructor
  · exact fun h hboth ↦ h.echo ((antiEchoReason_eq_some_iff hcreate).mpr ⟨rfl, hboth⟩)
  · intro h
    refine ⟨fun hecho ↦ h ((antiEchoReason_eq_some_iff hcreate).mp hecho).2, fun hnone result ↦ ?_⟩
    have hpass : antiEchoReason env event db c = none := by
      by_contra hreason
      obtain ⟨reason, hreason⟩ := Option.ne_none_iff_exists'.mp hreason
      exact hnone (h ((antiEchoReason_eq_some_iff hcreate).mp hreason).2)
    rw [applyAdmitted, hpass]

/-- Two texts are near when they begin alike. -/
def Env.topical : Env := { Env.sample with embed := fun text ↦ (text.toList.take 4).map (·.toNat) }

/-- The subject lives in Lyon and comes from Nice, and both were served. -/
def Sample.moved : Db :=
  runOps .topical .empty <|
    Sample.observe (Sample.event 1 .trusted)
      [Sample.create "city" "Lyon", Sample.create "origin" "Nice"] ++
    [.serve ⟨1, Sample.scope, 1, [⟨1, 0⟩, ⟨1, 1⟩]⟩]

/-- The subject is repeated where it comes from: one served fact is near and has the value, and the
repetition is dropped. -/
theorem echoPrecise_origin :
    EchoPrecise .topical (Sample.event 2 .trusted) Sample.moved (Sample.create "origin" "Nice") ∧
      antiEchoReason .topical (Sample.event 2 .trusted) Sample.moved
        (Sample.create "origin" "Nice") = some .echoOfContext := by
  refine ⟨(echoPrecise_iff rfl).mpr (.inr (.inr ?_)), by decide +kernel⟩
  obtain ⟨f, hf, hserved, hnear, hsays⟩ : ∃ f ∈ Sample.moved.facts.rows,
      f.id ∈ recentlyServedFactIds Sample.moved Sample.scope ∧
      f.NearTo .topical (Sample.create "origin" "Nice") ∧
      canonical f.value = canonical (Sample.create "origin" "Nice").value := by decide +kernel
  exact ⟨f, ⟨Table.mem_rows.mp hf, hserved⟩, hnear, hsays⟩

/-- The subject moves to Nice: one served fact is near, another has the value, and the update is
dropped. -/
theorem update_rejected_as_echo :
    ¬ EchoPrecise .topical (Sample.event 2 .trusted) Sample.moved (Sample.create "city" "Nice") ∧
    ∀ f ∈ (runOps .topical Sample.moved
        (Sample.observe (Sample.event 2 .trusted) [Sample.create "city" "Nice"])).facts,
      f.predicate = "city" → ∀ entry ∈ f.value, entry = ("value", .str "Lyon") := by
  refine ⟨fun h ↦ ?_, by decide +kernel⟩
  have hecho : antiEchoReason .topical (Sample.event 2 .trusted) Sample.moved
      (Sample.create "city" "Nice") = some .echoOfContext := by decide +kernel
  have hnone : ∀ f ∈ Sample.moved.facts, f.NearTo .topical (Sample.create "city" "Nice") →
      ¬ f.SaysThat (Sample.create "city" "Nice") := by
    simp only [Fact.SaysThat]
    decide +kernel
  obtain ⟨f, ⟨hf, -⟩, hnear, hsays⟩ := h.echo hecho
  exact hnone f hf hnear hsays

end Haki
