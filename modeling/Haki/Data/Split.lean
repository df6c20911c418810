import Mathlib.Data.List.DropRight
import Mathlib.Data.List.Sublists

/-!
# Splitting a text at separators

A separator is a rule that says how many of the coming characters it takes, given
the character before them.  When it only takes characters of a class, the pieces
contain all characters outside of the class, in order; stripping the class off
both ends keeps them as well.
-/

namespace Haki.Data

variable {α : Type} (blank : α → Bool)

/-- The characters outside of a class. -/
def solid (l : List α) : List α := l.filter fun c ↦ !blank c

@[simp] theorem solid_nil : solid blank [] = [] := rfl

@[simp] theorem solid_append (l m : List α) :
    solid blank (l ++ m) = solid blank l ++ solid blank m := List.filter_append ..

theorem solid_cons (c : α) (l : List α) :
    solid blank (c :: l) = solid blank [c] ++ solid blank l := solid_append blank [c] l

theorem solid_eq_nil {l : List α} (h : ∀ c ∈ l, blank c) : solid blank l = [] :=
  List.filter_eq_nil_iff.mpr fun c hc ↦ by simp [h c hc]

/-! ## Stripping -/

/-- The class is taken off both ends. -/
def strip (l : List α) : List α := (l.dropWhile blank).rdropWhile blank

theorem solid_dropWhile (l : List α) : solid blank (l.dropWhile blank) = solid blank l := by
  calc solid blank (l.dropWhile blank)
      = solid blank (l.takeWhile blank) ++ solid blank (l.dropWhile blank) := by
        rw [solid_eq_nil blank fun c hc ↦ List.mem_takeWhile_imp hc, List.nil_append]
    _ = solid blank l := by rw [← solid_append, List.takeWhile_append_dropWhile]

theorem solid_reverse (l : List α) : solid blank l.reverse = (solid blank l).reverse :=
  List.filter_reverse ..

theorem solid_strip (l : List α) : solid blank (strip blank l) = solid blank l := by
  calc solid blank (strip blank l)
      = (solid blank ((l.dropWhile blank).reverse.dropWhile blank)).reverse := solid_reverse ..
    _ = (solid blank (l.dropWhile blank).reverse).reverse := by rw [solid_dropWhile]
    _ = solid blank l := by rw [solid_reverse, List.reverse_reverse, solid_dropWhile]

/-- What is left ends outside of the class. -/
theorem getLast_strip {l : List α} (h : strip blank l ≠ []) :
    blank ((strip blank l).getLast h) = false := by
  have hlast := List.rdropWhile_last_not blank (l.dropWhile blank) h
  exact Bool.eq_false_iff.mpr hlast

/-! ## Splitting -/

variable (sep : Option α → List α → ℕ)

/-- The pieces of the rest of a text: `skip` characters belong to a separator, `piece` is the current
piece, and `prev` is the character before. -/
def splitFrom : ℕ → Option α → List α → List α → List (List α)
  | _, _, piece, [] => [piece]
  | 0, prev, piece, c :: cs =>
    match sep prev (c :: cs) with
    | 0 => splitFrom 0 (some c) (piece ++ [c]) cs
    | n + 1 => piece :: splitFrom n (some c) [] cs
  | n + 1, _, piece, c :: cs => splitFrom n (some c) piece cs

/-- The pieces of a text between its separators. -/
def split (l : List α) : List (List α) := splitFrom sep 0 none [] l

/-- The separators consist of characters of the class. -/
def BlankSeparator (blank : α → Bool) (sep : Option α → List α → ℕ) : Prop :=
  ∀ (prev : Option α) (cs : List α), ∀ c ∈ cs.take (sep prev cs), blank c

variable {blank sep}

theorem solid_splitFrom (h : BlankSeparator blank sep) (skip : ℕ) (prev : Option α) (piece l : List α)
    (hskip : ∀ c ∈ l.take skip, blank c) :
    solid blank (splitFrom sep skip prev piece l).flatten = solid blank piece ++ solid blank l := by
  induction l generalizing skip prev piece with
  | nil => cases skip <;> simp [splitFrom]
  | cons c cs ih =>
    cases skip with
    | succ n =>
      have hc : solid blank [c] = [] :=
        solid_eq_nil blank (by simpa using hskip c (by simp))
      rw [splitFrom, ih n (some c) piece fun d hd ↦ hskip d (by simp [hd]), solid_cons blank c cs, hc,
        List.nil_append]
    | zero =>
      rw [splitFrom]
      split
      · next hsep => rw [ih 0 _ _ (by simp), solid_append, solid_cons blank c cs, List.append_assoc]
      · next n hsep =>
        have htaken := h prev (c :: cs)
        rw [hsep, List.take_succ_cons] at htaken
        have hc : solid blank [c] = [] := solid_eq_nil blank (by simpa using htaken c (by simp))
        rw [List.flatten_cons, solid_append, ih n (some c) [] fun d hd ↦ htaken d (by simp [hd]),
          solid_nil, List.nil_append, solid_cons blank c cs, hc, List.nil_append]

/-- **Splitting loses nothing** outside of the class of the separators. -/
theorem solid_split (h : BlankSeparator blank sep) (l : List α) :
    solid blank (split sep l).flatten = solid blank l := by
  rw [split, solid_splitFrom h 0 none [] l (by simp), solid_nil, List.nil_append]

/-! ## Python's white space -/

/-- `str.isspace` of a character, which is also what `\s` matches. -/
def isSpace (c : Char) : Bool :=
  let n := c.toNat
  (9 ≤ n && n ≤ 13) || (28 ≤ n && n ≤ 32) || n = 133 || n = 160 || n = 5760 ||
    (8192 ≤ n && n ≤ 8202) || n = 8232 || n = 8233 || n = 8239 || n = 8287 || n = 12288

end Haki.Data
