import Haki.Context.Pool
import Haki.Data.Ascending
import Mathlib.Data.String.Basic

/-!
# The keys of the pool

The pool in closed form: a row is ranked by a key that depends on the axes of
all rows, but neither on their order nor on their primary keys, and the primary
keys decide between rows of one key only.
-/

namespace Haki

open Data

/-! ## Scores -/

/-- A value on an axis after `normalize`. -/
def normalizeIn (values : List ℚ) (value : ℚ) : ℚ :=
  match values.min?, values.max? with
  | some low, some high => if high ≤ low then 0 else (value - low) / (high - low)
  | _, _ => 0

theorem normalize_eq_map (values : List ℚ) : normalize values = values.map (normalizeIn values) := by
  rw [normalize]
  cases hmin : values.min? with
  | none => rw [List.min?_eq_none_iff.mp hmin]; rfl
  | some low =>
    cases hmax : values.max? with
    | none => rw [List.max?_eq_none_iff.mp hmax]; rfl
    | some high =>
      dsimp only
      split
      · next h => exact List.map_congr_left fun value _ ↦ by simp [normalizeIn, hmin, hmax, h]
      · next h => exact List.map_congr_left fun value _ ↦ by simp [normalizeIn, hmin, hmax, h]

theorem min?_congr {values values' : List ℚ} (h : values.Perm values') :
    values.min? = values'.min? := by
  cases hmin : values.min? with
  | none =>
    rw [List.min?_eq_none_iff] at hmin
    exact (List.min?_eq_none_iff.mpr (List.nil_perm.mp (hmin ▸ h))).symm
  | some low =>
    obtain ⟨hmem, hle⟩ := List.min?_eq_some_iff.mp hmin
    exact (List.min?_eq_some_iff.mpr
      ⟨h.mem_iff.mp hmem, fun value hvalue ↦ hle value (h.mem_iff.mpr hvalue)⟩).symm

theorem max?_congr {values values' : List ℚ} (h : values.Perm values') :
    values.max? = values'.max? := by
  cases hmax : values.max? with
  | none =>
    rw [List.max?_eq_none_iff] at hmax
    exact (List.max?_eq_none_iff.mpr (List.nil_perm.mp (hmax ▸ h))).symm
  | some high =>
    obtain ⟨hmem, hle⟩ := List.max?_eq_some_iff.mp hmax
    exact (List.max?_eq_some_iff.mpr
      ⟨h.mem_iff.mp hmem, fun value hvalue ↦ hle value (h.mem_iff.mpr hvalue)⟩).symm

theorem normalizeIn_congr {values values' : List ℚ} (h : values.Perm values') :
    normalizeIn values = normalizeIn values' := by
  funext value
  rw [normalizeIn, normalizeIn, min?_congr h, max?_congr h]

/-- The score of a row among the rows of its pool. -/
def scoreIn (reader : Reader) (rows : List PoolRow) (row : PoolRow) : ℚ :=
  match reader.ranking with
  | .legacy =>
    6 / 10 * row.axes.similarity + 25 / 100 * row.axes.fulltext + 15 / 100 * row.axes.recency
  | .normalized =>
    wSimilarity * normalizeIn (rows.map (·.axes.similarity)) row.axes.similarity +
      wFulltext * normalizeIn (rows.map (·.axes.fulltext)) row.axes.fulltext

theorem scores_eq (reader : Reader) (rows : List PoolRow) :
    scores reader rows = .ok (rows.map (scoreIn reader rows)) := by
  rw [scores]
  cases hranking : reader.ranking with
  | legacy =>
    simp only [legacyWeightedSum, List.zipWith_map, List.zipWith_self, List.map_map]
    refine congrArg Except.ok (List.map_congr_left fun row _ ↦ ?_)
    rw [scoreIn, hranking]
    rfl
  | normalized =>
    have hlength : ¬ (rows.map (·.axes.similarity)).length ≠
        (rows.map (·.axes.fulltext)).length := by simp
    dsimp only
    rw [relevance, if_neg hlength, normalize_eq_map, normalize_eq_map]
    simp only [List.map_map, List.zipWith_map, List.zipWith_self]
    refine congrArg Except.ok (List.map_congr_left fun row _ ↦ ?_)
    rw [scoreIn, hranking]
    rfl

/-- Scores do not depend on the order of the pool. -/
theorem scoreIn_congr {reader : Reader} {rows rows' : List PoolRow} (h : rows.Perm rows') :
    scoreIn reader rows = scoreIn reader rows' := by
  funext row
  rw [scoreIn, scoreIn, normalizeIn_congr (h.map (·.axes.similarity)),
    normalizeIn_congr (h.map (·.axes.fulltext))]

/-! ## The sort key -/

/-- A row as it is ranked among the rows of its pool. -/
def rankedIn (reader : Reader) (query : String) (rows : List PoolRow) (row : PoolRow) : Ranked :=
  ⟨row.adjustedScore (queryEntities query) (scoreIn reader rows row), row⟩

/-- The sort key without the primary key. -/
def Ranked.key (a : Ranked) : ℚᵒᵈ ×ₗ ℚᵒᵈ ×ₗ ℤ ×ₗ String :=
  toLex (.toDual a.score, toLex (.toDual a.row.axes.recency, toLex (contentTiebreak a.row)))

/-- One comparison after the other is the lexicographic order. -/
theorem isLE_compare_then {α : Type} [LinearOrder α] {a b : α} {o : Ordering} :
    ((compare a b).then o).isLE ↔ a < b ∨ a = b ∧ o.isLE := by
  rw [Ordering.isLE_then_iff_or, compare_lt_iff_lt, compare_eq_iff_eq]

theorem comparePool_isLE {reader : Reader} {a b : Ranked} :
    (comparePool reader a b).isLE ↔
      toLex (a.key, a.row.strId reader) ≤ toLex (b.key, b.row.strId reader) := by
  simp only [comparePool, isLE_compare_then, Std.LawfulBCmp.isLE_iff_le, Prod.Lex.toLex_le_toLex,
    Ranked.key, Prod.Lex.toLex_lt_toLex, EmbeddingLike.apply_eq_iff_eq, OrderDual.toDual_lt_toDual,
    Prod.ext_iff]
  rw [eq_comm (a := b.score), eq_comm (a := b.row.axes.recency)]
  tauto

/-- **The pool** in closed form. -/
theorem rankPool_eq (reader : Reader) (query : String) (rows : List PoolRow) :
    rankPool reader query rows = .ok (ascending
      (fun a : Ranked ↦ toLex (a.key, a.row.strId reader))
      (rows.map (rankedIn reader query rows))) := by
  rw [rankPool, scores_eq]
  refine congrArg Except.ok ?_
  rw [sortedBy, List.zipWith_map_left, List.zipWith_self, ascending]
  congr 1
  funext a b
  exact propext comparePool_isLE

end Haki
