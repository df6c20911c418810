import Haki.Data.Occurs

/-!
# Texts that part

Two texts part when they go on with different characters after a common
beginning: whatever follows them, they stay different.  An escaping that only
touches the occurrences of a word keeps them apart, unless an occurrence spans
the place where they part.
-/

namespace Haki.Data

variable {α : Type} {a b w x y : List α} {c d : α}

/-- Two texts go on with different characters after a common beginning. -/
def Part (a b : List α) : Prop :=
  ∃ w c d x y, a = w ++ c :: x ∧ b = w ++ d :: y ∧ c ≠ d

theorem Part.cons (h : c ≠ d) (x y : List α) : Part (c :: x) (d :: y) :=
  ⟨[], c, d, x, y, rfl, rfl, h⟩

theorem Part.append_left (h : Part a b) (l : List α) : Part (l ++ a) (l ++ b) := by
  obtain ⟨w, c, d, x, y, rfl, rfl, hne⟩ := h
  exact ⟨l ++ w, c, d, x, y, (List.append_assoc ..).symm, (List.append_assoc ..).symm, hne⟩

theorem Part.append (h : Part a b) (x y : List α) : Part (a ++ x) (b ++ y) := by
  obtain ⟨w, c, d, x', y', rfl, rfl, hne⟩ := h
  exact ⟨w, c, d, x' ++ x, y' ++ y, List.append_assoc .., List.append_assoc .., hne⟩

theorem Part.ne (h : Part a b) : a ≠ b := by
  obtain ⟨w, c, d, x, y, rfl, rfl, hne⟩ := h
  exact fun heq ↦ hne (List.cons.inj (List.append_cancel_left heq)).1

/-- The texts of a list are equal, or part. -/
abbrev EqOrPart (a b : List α) : Prop := a = b ∨ Part a b

/-- Joined lists that are not the same part where two of their texts do. -/
theorem Part.intercalate {sep : List α} {as bs : List (List α)} (h : List.Forall₂ EqOrPart as bs)
    (hne : as ≠ bs) : Part (sep.intercalate as) (sep.intercalate bs) := by
  induction h with
  | nil => exact absurd rfl hne
  | @cons a b as bs hab htail ih =>
    rcases hab with rfl | hpart
    · have htails : as ≠ bs := fun heq ↦ hne (heq ▸ rfl)
      cases htail with
      | nil => exact absurd rfl htails
      | cons =>
        rw [List.intercalate_cons_cons, List.intercalate_cons_cons]
        exact (ih htails).append_left (a ++ sep)
    · cases htail with
      | nil => simpa using hpart
      | cons =>
        rw [List.intercalate_cons_cons, List.intercalate_cons_cons, List.append_assoc,
          List.append_assoc]
        exact hpart.append _ _

/-! ## Seams -/

/-- No occurrence of a word spans the seam of two texts: one of the characters at the seam is not
in the word. -/
def Seam (word a b : List α) : Prop :=
  (∀ c ∈ a.getLast?, c ∉ word) ∨ ∀ c ∈ b.head?, c ∉ word

/-- A word that starts a concatenation and spans no seam ends in the first text. -/
theorem Seam.prefix_iff {word : List α} (h : Seam word a b) (ha : a ≠ []) :
    word <+: a ++ b ↔ word <+: a := by
  rcases h with hlast | hhead
  · refine ⟨fun hw ↦ ?_, fun hw ↦ hw.trans (List.prefix_append a b)⟩
    rcases List.prefix_or_prefix_of_prefix hw (List.prefix_append a b) with hword | hword
    · exact hword
    · have hmem := hword.subset (List.getLast_mem ha)
      exact absurd hmem (hlast _ (List.getLast?_eq_some_getLast ha))
  · exact prefix_append_iff hhead

/-- A seam behind more text. -/
theorem Seam.of_cons {word : List α} (h : Seam word (c :: a) b) (ha : a ≠ []) : Seam word a b :=
  h.imp_left fun hlast x hx ↦ hlast x (by rwa [List.getLast?_cons_of_ne_nil ha])

/-- Two texts part at a place that no occurrence of the word spans. -/
def PartApart (word a b : List α) : Prop :=
  ∃ w c d x y, a = w ++ c :: x ∧ b = w ++ d :: y ∧ c ≠ d ∧
    Seam word w (c :: x) ∧ Seam word w (d :: y)

theorem PartApart.of_last {word : List α} (h : c ≠ d) (hlast : ∀ l ∈ w.getLast?, l ∉ word)
    (x y : List α) : PartApart word (w ++ c :: x) (w ++ d :: y) :=
  ⟨w, c, d, x, y, rfl, rfl, h, .inl hlast, .inl hlast⟩

theorem PartApart.of_next {word : List α} (h : c ≠ d) (hc : c ∉ word) (hd : d ∉ word)
    (w x y : List α) : PartApart word (w ++ c :: x) (w ++ d :: y) :=
  ⟨w, c, d, x, y, rfl, rfl, h, .inr (by rintro _ ⟨⟩; exact hc), .inr (by rintro _ ⟨⟩; exact hd)⟩

end Haki.Data
