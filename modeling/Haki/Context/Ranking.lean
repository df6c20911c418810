import Mathlib.Algebra.Order.Ring.Rat
import Mathlib.Data.List.Sort

/-!
# The order of the candidate pool

The arithmetic of `app.context.ranking`, over exact rationals.
-/

namespace Haki

/-- What `build_context` fails with. -/
inductive ContextError where
  /-- `budget_exceeded`: `budget_tokens` is not positive. -/
  | budgetExceeded
  /-- The axes of one pool have different lengths. -/
  | axesDiffer
deriving DecidableEq, Repr

/-- `normalize`: min-max onto `[0, 1]`; a flat axis becomes all zeros. -/
def normalize (values : List ℚ) : List ℚ :=
  match values.min?, values.max? with
  | some low, some high =>
    if high ≤ low then values.map fun _ ↦ 0 else values.map fun value ↦ (value - low) / (high - low)
  | _, _ => []

@[simp] theorem length_normalize (values : List ℚ) : (normalize values).length = values.length := by
  cases values with
  | nil => rfl
  | cons value values =>
    simp only [normalize, List.min?_cons', List.max?_cons']
    split <;> exact List.length_map _

/-- `W_SIMILARITY`. -/
def wSimilarity : ℚ := 65 / 100

/-- `W_FULLTEXT`. -/
def wFulltext : ℚ := 35 / 100

/-- `relevance`: a convex combination of the two normalized axes. -/
def relevance (similarity fulltext : List ℚ) : Except ContextError (List ℚ) :=
  if similarity.length ≠ fulltext.length then .error .axesDiffer
  else .ok (List.zipWith (fun s f ↦ wSimilarity * s + wFulltext * f) (normalize similarity)
    (normalize fulltext))

/-- Axes of one length have a relevance of that length. -/
theorem relevance_eq_ok {similarity fulltext : List ℚ} (h : similarity.length = fulltext.length) :
    ∃ scores, relevance similarity fulltext = .ok scores ∧ scores.length = similarity.length := by
  refine ⟨_, if_neg (not_not.mpr h), ?_⟩
  rw [List.length_zipWith, length_normalize, length_normalize, h, Nat.min_self]

/-- `legacy_weighted_sum` under the weights of `RANKING_LEGACY`. -/
def legacyWeightedSum (similarity fulltext recency : List ℚ) : List ℚ :=
  List.zipWith (· + ·)
    (List.zipWith (fun s f ↦ 6 / 10 * s + 25 / 100 * f) similarity fulltext)
    (recency.map (15 / 100 * ·))

/-- `sorted`: a stable sort, by a comparison of keys. -/
def sortedBy {α : Type} (cmp : α → α → Ordering) (items : List α) : List α :=
  items.insertionSort fun a b ↦ (cmp a b).isLE

theorem sortedBy_perm {α : Type} (cmp : α → α → Ordering) (items : List α) :
    (sortedBy cmp items).Perm items := List.perm_insertionSort _ items

theorem mem_sortedBy {α : Type} {cmp : α → α → Ordering} {items : List α} {a : α} :
    a ∈ sortedBy cmp items ↔ a ∈ items :=
  (List.perm_insertionSort _ items).mem_iff

end Haki
