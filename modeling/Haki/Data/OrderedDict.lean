import Haki.Data.Table

/-!
# Bounded ordered tables

What an `OrderedDict` adds to a table: a row is moved to the end, and the oldest
ones are dropped until so many are left.  Neither makes up a row.
-/

namespace Haki.Data

universe u v

namespace Table

variable {α : Type u} {κ : Type v} [Keyed α κ]

/-! ## Recency -/

section MoveToEnd

variable [DecidableEq κ]

/-- The rows with another key, and then the one with this key. -/
def recentRows (k : κ) (l : List α) : List α :=
  l.filter (fun a ↦ key a ≠ k) ++ l.filter (fun a ↦ key a = k)

theorem recentRows_perm (k : κ) (l : List α) : (recentRows k l).Perm l := by
  have h := List.filter_append_perm (fun a ↦ decide (key a ≠ k)) l
  simpa [recentRows] using h

/-- `move_to_end`. -/
def moveToEnd (t : Table α) (k : κ) : Table α :=
  ⟨recentRows k t.rows, ((recentRows_perm k t.rows).map key).nodup_iff.mpr t.nodup⟩

@[simp] theorem mem_moveToEnd {t : Table α} {k : κ} {a : α} : a ∈ t.moveToEnd k ↔ a ∈ t :=
  (recentRows_perm k t.rows).mem_iff

@[simp] theorem length_moveToEnd (t : Table α) (k : κ) :
    (t.moveToEnd k).rows.length = t.rows.length :=
  (recentRows_perm k t.rows).length_eq

end MoveToEnd

/-! ## Eviction -/

/-- Drop the first row as long as there are more than `n`. -/
def trimRows (n : ℕ) : List α → List α
  | [] => []
  | a :: l => if n < (a :: l).length then trimRows n l else a :: l

theorem trimRows_suffix (n : ℕ) (l : List α) : trimRows n l <:+ l := by
  induction l with
  | nil => exact List.suffix_rfl
  | cons a l ih =>
    rw [trimRows]
    split
    · exact ih.trans (List.suffix_cons a l)
    · exact List.suffix_rfl

theorem length_trimRows_le (n : ℕ) (l : List α) : (trimRows n l).length ≤ n := by
  induction l with
  | nil => exact Nat.zero_le n
  | cons a l ih =>
    rw [trimRows]
    split
    · exact ih
    · next h => exact Nat.not_lt.mp h

/-- `while len(t) > n: t.popitem(last=False)`. -/
def trim (n : ℕ) (t : Table α) : Table α :=
  ⟨trimRows n t.rows, t.nodup.sublist ((trimRows_suffix n t.rows).sublist.map key)⟩

theorem mem_of_mem_trim {n : ℕ} {t : Table α} {a : α} (h : a ∈ t.trim n) : a ∈ t :=
  (trimRows_suffix n t.rows).mem h

theorem length_trim_le (n : ℕ) (t : Table α) : (t.trim n).rows.length ≤ n :=
  length_trimRows_le n t.rows

end Table

end Haki.Data
