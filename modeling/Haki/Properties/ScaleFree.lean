import Haki.Data.Extremes
import Haki.Context.Ranking
import Mathlib.Algebra.Order.Field.Rat
import Mathlib.Data.Fintype.EquivFin
import Mathlib.Tactic.NormNum

/-!
# Relevance is scale-free

Of the values of an axis only the extremes and the position between them
count.  So relevance does not see the order of the pool, the unit an axis is
measured in, or a candidate that is no extreme.
-/

namespace Haki

open Data

variable {n : ℕ} {low high low' high' : ℚ} {similarity fulltext score : Fin n → ℚ}

/-- `v` lies between two values of the axis. -/
def InRange (axis : Fin n → ℚ) (v : ℚ) : Prop := (∃ i, axis i ≤ v) ∧ ∃ i, v ≤ axis i

/-- The candidate is not an extreme of the axis. -/
def Interior (axis : Fin n → ℚ) (i : Fin n) : Prop :=
  (∃ j, axis j < axis i) ∧ ∃ j, axis i < axis j

theorem Interior.ne {axis : Fin n → ℚ} {i : Fin n} (h : Interior axis i)
    (he : Extremes low high axis) : axis i ≠ low ∧ axis i ≠ high := by
  obtain ⟨⟨j, hj⟩, k, hk⟩ := h
  exact ⟨((he.le j).trans_lt hj).ne', (hk.trans_le (he.ge k)).ne⟩

/-- Normalizing an axis rescales each of its values between the extremes. -/
theorem normalize_ofFn {axis : Fin n → ℚ} (h : Extremes low high axis) :
    normalize (List.ofFn axis) = List.ofFn fun i ↦ rescale low high (axis i) := by
  have hmin : (List.ofFn axis).min? = some low := by
    rw [List.min?_eq_some_iff]
    exact ⟨(List.mem_ofFn' _ _).mpr h.least.1, List.forall_mem_ofFn_iff.mpr h.le⟩
  have hmax : (List.ofFn axis).max? = some high := by
    rw [List.max?_eq_some_iff]
    exact ⟨(List.mem_ofFn' _ _).mpr h.greatest.1, List.forall_mem_ofFn_iff.mpr h.ge⟩
  simp only [normalize, hmin, hmax, List.map_ofFn]
  by_cases hflat : high ≤ low
  · rw [if_pos hflat]
    exact congrArg List.ofFn (funext fun i ↦ (if_pos hflat).symm)
  · rw [if_neg hflat]
    exact congrArg List.ofFn (funext fun i ↦ (if_neg hflat).symm)

/-- The score of a candidate, from the extremes of the two axes and its own two values. -/
def scoreBetween (low high low' high' s f : ℚ) : ℚ :=
  wSimilarity * rescale low high s + wFulltext * rescale low' high' f

theorem relevance_ofFn (hs : Extremes low high similarity) (hf : Extremes low' high' fulltext) :
    relevance (List.ofFn similarity) (List.ofFn fulltext) =
      .ok (List.ofFn fun i ↦ scoreBetween low high low' high' (similarity i) (fulltext i)) := by
  have hlen : (List.ofFn similarity).length = (List.ofFn fulltext).length := by simp
  rw [relevance, if_neg (not_not.mpr hlen), normalize_ofFn hs, normalize_ofFn hf]
  refine congrArg Except.ok (List.ext_getElem (by simp) fun i _ _ ↦ ?_)
  simp only [List.getElem_zipWith, List.getElem_ofFn]
  rfl

theorem wSimilarity_nonneg : 0 ≤ wSimilarity := by norm_num [wSimilarity]

theorem wFulltext_nonneg : 0 ≤ wFulltext := by norm_num [wFulltext]

theorem scoreBetween_mem_unit {s f : ℚ} (hs : low ≤ s ∧ s ≤ high) (hf : low' ≤ f ∧ f ≤ high') :
    0 ≤ scoreBetween low high low' high' s f ∧ scoreBetween low high low' high' s f ≤ 1 := by
  refine ⟨add_nonneg (mul_nonneg wSimilarity_nonneg (rescale_nonneg hs.1))
    (mul_nonneg wFulltext_nonneg (rescale_nonneg hf.1)), ?_⟩
  calc scoreBetween low high low' high' s f
      ≤ wSimilarity * 1 + wFulltext * 1 :=
        add_le_add (mul_le_mul_of_nonneg_left (rescale_le_one hs.2) wSimilarity_nonneg)
          (mul_le_mul_of_nonneg_left (rescale_le_one hf.2) wFulltext_nonneg)
    _ = 1 := by norm_num [wSimilarity, wFulltext]

/-- The scores of the pool, and what they do not depend on. -/
structure ScaleFree (similarity fulltext score : Fin n → ℚ) : Prop where
  scores : relevance (List.ofFn similarity) (List.ofFn fulltext) = .ok (List.ofFn score)
  mem_unit : ∀ i, 0 ≤ score i ∧ score i ≤ 1
  /-- Permuting the candidates permutes the scores. -/
  permute : ∀ σ : Equiv.Perm (Fin n),
    relevance (List.ofFn (similarity ∘ σ)) (List.ofFn (fulltext ∘ σ)) = .ok (List.ofFn (score ∘ σ))
  /-- A positive affine map of one axis changes no score. -/
  affine_similarity : ∀ a b, 0 < a →
    relevance (List.ofFn fun i ↦ a * similarity i + b) (List.ofFn fulltext) = .ok (List.ofFn score)
  affine_fulltext : ∀ a b, 0 < a →
    relevance (List.ofFn similarity) (List.ofFn fun i ↦ a * fulltext i + b) = .ok (List.ofFn score)
  /-- A flat axis contributes nothing. -/
  flat_similarity : (∀ i j, similarity i = similarity j) →
    List.ofFn score = (normalize (List.ofFn fulltext)).map (wFulltext * ·)
  flat_fulltext : (∀ i j, fulltext i = fulltext j) →
    List.ofFn score = (normalize (List.ofFn similarity)).map (wSimilarity * ·)
  /-- Raising the value of a candidate that is no extreme, within the range of the axis, never
  lowers its score and changes no other. -/
  raise_similarity : ∀ i v, Interior similarity i → InRange similarity v → similarity i ≤ v →
    ∃ s, score i ≤ s ∧ relevance (List.ofFn (Function.update similarity i v)) (List.ofFn fulltext) =
      .ok (List.ofFn (Function.update score i s))
  raise_fulltext : ∀ i v, Interior fulltext i → InRange fulltext v → fulltext i ≤ v →
    ∃ s, score i ≤ s ∧ relevance (List.ofFn similarity) (List.ofFn (Function.update fulltext i v)) =
      .ok (List.ofFn (Function.update score i s))
  /-- A further candidate inside the range of both axes changes no other score. -/
  insert : ∀ (p : Fin (n + 1)) (v w : ℚ), InRange similarity v → InRange fulltext w →
    ∃ s, relevance (List.ofFn (p.insertNth v similarity : Fin (n + 1) → ℚ))
        (List.ofFn (p.insertNth w fulltext : Fin (n + 1) → ℚ)) =
      .ok (List.ofFn (p.insertNth s score : Fin (n + 1) → ℚ))

theorem monotone_affine {a : ℚ} (ha : 0 < a) (b : ℚ) : Monotone fun v ↦ a * v + b :=
  fun _ _ h ↦ add_le_add_left (mul_le_mul_of_nonneg_left h ha.le) b

/-- A value that takes one place of the axis takes the same place of the scores. -/
theorem comp_update {α β : Type} {f : Fin n → α → β} {x : Fin n → α} (i : Fin n) (v : α) :
    (fun j ↦ f j (Function.update x i v j)) = Function.update (fun j ↦ f j (x j)) i (f i v) := by
  funext j
  by_cases h : j = i
  · subst h
    rw [Function.update_self, Function.update_self]
  · rw [Function.update_of_ne h, Function.update_of_ne h]

theorem scoreBetween_flat_left (h : high ≤ low) (s f : ℚ) :
    scoreBetween low high low' high' s f = wFulltext * rescale low' high' f := by
  rw [scoreBetween, rescale, if_pos h, mul_zero, zero_add]

theorem scoreBetween_flat_right (h : high' ≤ low') (s f : ℚ) :
    scoreBetween low high low' high' s f = wSimilarity * rescale low high s := by
  rw [scoreBetween, rescale, rescale, if_pos h, mul_zero, add_zero]

theorem scaleFree_of_extremes (hs : Extremes low high similarity)
    (hf : Extremes low' high' fulltext) :
    ScaleFree similarity fulltext
      fun i ↦ scoreBetween low high low' high' (similarity i) (fulltext i) where
  scores := relevance_ofFn hs hf
  mem_unit i := scoreBetween_mem_unit ⟨hs.le i, hs.ge i⟩ ⟨hf.le i, hf.ge i⟩
  permute σ := relevance_ofFn (hs.permute σ) (hf.permute σ)
  affine_similarity a b ha := by
    rw [relevance_ofFn (hs.map (monotone_affine ha b)) hf]
    simp only [scoreBetween, rescale_affine ha]
  affine_fulltext a b ha := by
    rw [relevance_ofFn hs (hf.map (monotone_affine ha b))]
    simp only [scoreBetween, rescale_affine ha]
  flat_similarity hflat := by
    rw [normalize_ofFn hf, List.map_ofFn]
    exact congrArg List.ofFn (funext fun i ↦ scoreBetween_flat_left (hs.le_of_flat hflat) _ _)
  flat_fulltext hflat := by
    rw [normalize_ofFn hs, List.map_ofFn]
    exact congrArg List.ofFn (funext fun i ↦ scoreBetween_flat_right (hf.le_of_flat hflat) _ _)
  raise_similarity i v hi hv hle := by
    have hne := hi.ne hs
    refine ⟨scoreBetween low high low' high' v (fulltext i),
      add_le_add_left (mul_le_mul_of_nonneg_left (rescale_mono hle) wSimilarity_nonneg) _, ?_⟩
    rw [relevance_ofFn (hs.update hne.1 hne.2 (hs.between hv.1 hv.2)) hf,
      ← comp_update (f := fun j s ↦ scoreBetween low high low' high' s (fulltext j))]
  raise_fulltext i v hi hv hle := by
    have hne := hi.ne hf
    refine ⟨scoreBetween low high low' high' (similarity i) v,
      add_le_add_right (mul_le_mul_of_nonneg_left (rescale_mono hle) wFulltext_nonneg) _, ?_⟩
    rw [relevance_ofFn hs (hf.update hne.1 hne.2 (hf.between hv.1 hv.2)),
      ← comp_update (f := fun j f ↦ scoreBetween low high low' high' (similarity j) f)]
  insert p v w hv hw := by
    refine ⟨scoreBetween low high low' high' v w, ?_⟩
    rw [relevance_ofFn (hs.insertNth p (hs.between hv.1 hv.2))
      (hf.insertNth p (hf.between hw.1 hw.2))]
    refine congrArg (fun s ↦ Except.ok (List.ofFn s)) (Fin.eq_insertNth_iff.mpr ⟨?_, ?_⟩)
    · simp only [Fin.insertNth_apply_same]
    · funext i
      simp only [Fin.removeNth, Fin.insertNth_apply_succAbove]

/-- **Scale-freeness.**  Two axes over the same non-empty pool score every candidate in `[0, 1]`;
the scores follow a permutation of the pool, and neither the unit of an axis, nor a flat axis, nor
what a candidate between the extremes does changes any other candidate's score. -/
theorem relevance_scaleFree (similarity fulltext : Fin (n + 1) → ℚ) :
    ∃ score, ScaleFree similarity fulltext score := by
  obtain ⟨low, high, hs⟩ := Extremes.exists_of_finite similarity
  obtain ⟨low', high', hf⟩ := Extremes.exists_of_finite fulltext
  exact ⟨_, scaleFree_of_extremes hs hf⟩

end Haki
