import Mathlib.Data.List.Basic
import Mathlib.Algebra.BigOperators.Group.List.Basic
import Mathlib.Algebra.GroupWithZero.Nat

/-!
# Occurrences of a word in a text

An occurrence that spans a concatenation contains both characters at the seam.
So a character that is not in the word cuts a text into parts whose
occurrences add up.
-/

namespace Haki.Data

variable {α : Type} [DecidableEq α] {w : List α}

/-- How often a word that is not empty occurs in a text. -/
def occurrences (w : List α) : List α → Nat
  | [] => 0
  | c :: text => (if w <+: c :: text then 1 else 0) + occurrences w text

@[simp] theorem occurrences_nil : occurrences w [] = 0 := rfl

theorem occurrences_cons (c : α) (text : List α) :
    occurrences w (c :: text) = (if w <+: c :: text then 1 else 0) + occurrences w text := rfl

omit [DecidableEq α] in
/-- A word that starts a concatenation ends before a character that it does not contain. -/
theorem prefix_append_iff {a b : List α} (h : ∀ c ∈ b.head?, c ∉ w) : w <+: a ++ b ↔ w <+: a := by
  constructor
  · intro hw
    rcases List.prefix_or_prefix_of_prefix hw (List.prefix_append a b) with ha | ha
    · exact ha
    · obtain ⟨t, rfl⟩ := ha
      cases t with
      | nil => simp
      | cons c t =>
        obtain ⟨rest, rfl⟩ := (List.prefix_append_right_inj a).mp hw
        exact absurd (List.mem_append_right a List.mem_cons_self) (h c rfl)
  · exact fun hw ↦ hw.trans (List.prefix_append a b)

/-- A text that starts with a character the word does not contain. -/
theorem occurrences_append_of_head {a b : List α} (h : ∀ c ∈ b.head?, c ∉ w) :
    occurrences w (a ++ b) = occurrences w a + occurrences w b := by
  induction a with
  | nil => simp
  | cons c a ih =>
    have hstart : w <+: c :: (a ++ b) ↔ w <+: c :: a := prefix_append_iff (a := c :: a) h
    rw [List.cons_append, occurrences_cons, occurrences_cons, ih, add_assoc]
    simp only [hstart]

/-- A character that the word does not contain starts no occurrence. -/
theorem occurrences_cons_of_notMem (hw : w ≠ []) {c : α} (h : c ∉ w) (text : List α) :
    occurrences w (c :: text) = occurrences w text := by
  have hstart : ¬ w <+: c :: text := by
    rintro ⟨t, ht⟩
    cases w with
    | nil => exact hw rfl
    | cons d w =>
      rw [List.cons_append] at ht
      exact h ((List.cons.inj ht).1 ▸ List.mem_cons_self)
  rw [occurrences_cons, if_neg hstart, zero_add]

/-- A text that ends with a character the word does not contain. -/
theorem occurrences_append_of_last (hw : w ≠ []) {a b : List α} (h : ∀ c ∈ a.getLast?, c ∉ w) :
    occurrences w (a ++ b) = occurrences w a + occurrences w b := by
  rcases List.eq_nil_or_concat a with rfl | ⟨a, c, rfl⟩
  · simp
  · have hc : c ∉ w := h c (by simp)
    have hhead : ∀ d ∈ (c :: b).head?, d ∉ w := by simpa using hc
    rw [List.concat_eq_append, List.append_assoc, List.singleton_append,
      occurrences_append_of_head hhead, occurrences_append_of_head (by simpa using hc),
      occurrences_cons_of_notMem hw hc, occurrences_cons_of_notMem hw hc, occurrences_nil, add_zero]

/-- A text without the first character of the word. -/
theorem occurrences_eq_zero_of_notMem {c : α} {text : List α} (h : c ∉ text) :
    occurrences (c :: w) text = 0 := by
  induction text with
  | nil => rfl
  | cons d text ih =>
    obtain ⟨hd, htext⟩ := not_or.mp (List.mem_cons.not.mp h)
    have hstart : ¬ c :: w <+: d :: text := fun hw ↦ hd (List.cons_prefix_cons.mp hw).1
    rw [occurrences_cons, if_neg hstart, ih htext]

/-- Lines that are joined by a character the word does not contain. -/
theorem occurrences_intercalate (hw : w ≠ []) {c : α} (h : c ∉ w) (lines : List (List α)) :
    occurrences w ([c].intercalate lines) = (lines.map (occurrences w)).sum := by
  induction lines with
  | nil => rfl
  | cons line lines ih =>
    cases lines with
    | nil => simp [List.intercalate]
    | cons line' lines =>
      rw [List.intercalate_cons_cons, List.map_cons, List.sum_cons, ← ih, List.append_assoc,
        occurrences_append_of_head (by simpa using h), List.singleton_append,
        occurrences_cons_of_notMem hw h]

end Haki.Data
