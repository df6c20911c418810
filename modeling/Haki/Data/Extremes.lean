import Mathlib.Algebra.Order.Field.Basic
import Mathlib.Data.Fin.Tuple.Basic
import Mathlib.Order.Bounds.Basic
import Mathlib.Order.Fin.Basic
import Mathlib.Data.Fintype.Lattice

/-!
# The extremes of a family of values

The least and the greatest value of a finite family, what leaves them alone,
and where a value lies between them.
-/

namespace Haki.Data

section Order

variable {ι κ α β : Type*} {low high : α} {x : ι → α}

/-- `low` is the least value of the family and `high` the greatest. -/
structure Extremes [Preorder α] (low high : α) (x : ι → α) : Prop where
  least : IsLeast (Set.range x) low
  greatest : IsGreatest (Set.range x) high

namespace Extremes

theorem le [Preorder α] (h : Extremes low high x) (i : ι) : low ≤ x i := h.least.2 ⟨i, rfl⟩

theorem ge [Preorder α] (h : Extremes low high x) (i : ι) : x i ≤ high := h.greatest.2 ⟨i, rfl⟩

/-- A value between two members lies between the extremes. -/
theorem between [Preorder α] (h : Extremes low high x) {v : α} (hlow : ∃ i, x i ≤ v)
    (hhigh : ∃ i, v ≤ x i) : low ≤ v ∧ v ≤ high := by
  obtain ⟨i, hi⟩ := hlow
  obtain ⟨j, hj⟩ := hhigh
  exact ⟨(h.le i).trans hi, hj.trans (h.ge j)⟩

/-- A finite family has extremes. -/
theorem exists_of_finite [LinearOrder α] [Finite ι] [Nonempty ι] (x : ι → α) :
    ∃ low high, Extremes low high x := by
  obtain ⟨i, hi⟩ := Finite.exists_min x
  obtain ⟨j, hj⟩ := Finite.exists_max x
  exact ⟨x i, x j, ⟨⟨i, rfl⟩, Set.forall_mem_range.mpr hi⟩, ⟨⟨j, rfl⟩, Set.forall_mem_range.mpr hj⟩⟩

/-- The extremes are those of the set of values. -/
theorem of_range_eq [Preorder α] {y : κ → α} (h : Extremes low high x)
    (hr : Set.range y = Set.range x) : Extremes low high y :=
  ⟨hr ▸ h.least, hr ▸ h.greatest⟩

/-- The order of the family does not matter. -/
theorem permute [Preorder α] (h : Extremes low high x) (σ : Equiv.Perm ι) :
    Extremes low high (x ∘ σ) :=
  h.of_range_eq (EquivLike.range_comp x σ)

/-- A monotone map takes the extremes along. -/
theorem map [Preorder α] [Preorder β] (h : Extremes low high x) {g : α → β} (hg : Monotone g) :
    Extremes (g low) (g high) fun i ↦ g (x i) := by
  have hr : Set.range (fun i ↦ g (x i)) = g '' Set.range x := Set.range_comp g x
  exact ⟨hr ▸ hg.map_isLeast h.least, hr ▸ hg.map_isGreatest h.greatest⟩

/-- A member that is no extreme may take any other value between the extremes. -/
theorem update [Preorder α] [DecidableEq ι] (h : Extremes low high x) {i : ι} {v : α}
    (hlow : x i ≠ low) (hhigh : x i ≠ high) (hv : low ≤ v ∧ v ≤ high) :
    Extremes low high (Function.update x i v) := by
  have hold : ∀ w, w ∈ Set.range x → x i ≠ w → w ∈ Set.range (Function.update x i v) := by
    rintro _ ⟨j, rfl⟩ hne
    exact ⟨j, Function.update_of_ne (fun hji ↦ hne (congrArg x hji.symm)) v x⟩
  have hbetween : ∀ j, low ≤ Function.update x i v j ∧ Function.update x i v j ≤ high := by
    intro j
    by_cases hj : j = i
    · rw [hj, Function.update_self]
      exact hv
    · rw [Function.update_of_ne hj]
      exact ⟨h.le j, h.ge j⟩
  exact ⟨⟨hold low h.least.1 hlow, Set.forall_mem_range.mpr fun j ↦ (hbetween j).1⟩,
    ⟨hold high h.greatest.1 hhigh, Set.forall_mem_range.mpr fun j ↦ (hbetween j).2⟩⟩

/-- A further member between the extremes leaves them as they are. -/
theorem insertNth [Preorder α] {n : ℕ} {x : Fin n → α} (h : Extremes low high x)
    (p : Fin (n + 1)) {v : α} (hv : low ≤ v ∧ v ≤ high) :
    Extremes low high (p.insertNth v x : Fin (n + 1) → α) := by
  have hr : Set.range (p.insertNth v x : Fin (n + 1) → α) = insert v (Set.range x) :=
    Fin.range_insertNth p v x
  refine ⟨⟨hr ▸ .inr h.least.1, ?_⟩, ⟨hr ▸ .inr h.greatest.1, ?_⟩⟩
  · rw [hr, lowerBounds_insert]
    exact ⟨hv.1, h.least.2⟩
  · rw [hr, upperBounds_insert]
    exact ⟨hv.2, h.greatest.2⟩

/-- The extremes of a flat family coincide. -/
theorem le_of_flat [Preorder α] (h : Extremes low high x) (hflat : ∀ i j, x i = x j) :
    high ≤ low := by
  obtain ⟨i, rfl⟩ := h.least.1
  obtain ⟨j, rfl⟩ := h.greatest.1
  exact (hflat j i).le

end Extremes

end Order

section Field

variable {K : Type*} [Field K] [LinearOrder K] [IsStrictOrderedRing K] {low high v w : K}

/-- How far `v` is on the way from `low` to `high`; nowhere if there is no way to go. -/
def rescale (low high v : K) : K := if high ≤ low then 0 else (v - low) / (high - low)

theorem rescale_nonneg (h : low ≤ v) : 0 ≤ rescale low high v := by
  rw [rescale]
  split
  · exact le_rfl
  · next hlt => exact div_nonneg (sub_nonneg.mpr h) (sub_nonneg.mpr (not_le.mp hlt).le)

theorem rescale_le_one (h : v ≤ high) : rescale low high v ≤ 1 := by
  rw [rescale]
  split
  · exact zero_le_one
  · next hlt => exact (div_le_one (sub_pos.mpr (not_le.mp hlt))).mpr (sub_le_sub_right h low)

theorem rescale_mono (h : v ≤ w) : rescale low high v ≤ rescale low high w := by
  rw [rescale, rescale]
  split
  · exact le_rfl
  · next hlt =>
    exact div_le_div_of_nonneg_right (sub_le_sub_right h low) (sub_nonneg.mpr (not_le.mp hlt).le)

/-- The unit and the zero point of the scale do not matter. -/
theorem rescale_affine {a : K} (ha : 0 < a) (b : K) :
    rescale (a * low + b) (a * high + b) (a * v + b) = rescale low high v := by
  have hle : a * high + b ≤ a * low + b ↔ high ≤ low := by
    rw [add_le_add_iff_right, mul_le_mul_iff_right₀ ha]
  rw [rescale, rescale, if_congr hle rfl rfl]
  split
  · rfl
  · rw [add_sub_add_right_eq_sub, add_sub_add_right_eq_sub, ← mul_sub, ← mul_sub,
      mul_div_mul_left _ _ ha.ne']

end Field

end Haki.Data
