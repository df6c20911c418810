import Mathlib.Data.List.Induction
import Mathlib.Tactic.Common

/-!
# Names that move

A move takes everything under one name to another name.  `follow` is where a
name leads after a sequence of moves, and `MovedAway` says of a name that the
last move it took part in took it away.  Names can be used again: a move to a
name that was moved away brings it back, and `not_movedAway_follow` says that
what `follow` leads to is never a name that is moved away.
-/

namespace Haki.Data

universe u

variable {α : Type u} [DecidableEq α] {moves later : List (α × α)} {a b x : α}

/-- Where `x` is after everything under `a` moved to `b`. -/
def rename (a b x : α) : α := if x = a then b else x

@[simp] theorem rename_self (a b : α) : rename a b a = b := if_pos rfl

theorem rename_of_ne (h : x ≠ a) : rename a b x = x := if_neg h

theorem rename_ne (hab : a ≠ b) (x : α) : rename a b x ≠ a := by
  rw [rename]
  split
  · exact hab.symm
  · assumption

/-- Where a name leads after a sequence of moves. -/
def follow (moves : List (α × α)) (x : α) : α := moves.foldl (fun x move ↦ rename move.1 move.2 x) x

@[simp] theorem follow_nil (x : α) : follow [] x = x := rfl

theorem follow_cons (move : α × α) (moves : List (α × α)) (x : α) :
    follow (move :: moves) x = follow moves (rename move.1 move.2 x) := rfl

theorem follow_append (moves later : List (α × α)) (x : α) :
    follow (moves ++ later) x = follow later (follow moves x) := List.foldl_append

/-- The last move that `x` took part in took it away. -/
def MovedAway (moves : List (α × α)) (x : α) : Prop :=
  ∃ before y after, moves = before ++ (x, y) :: after ∧ ∀ move ∈ after, move.1 ≠ x ∧ move.2 ≠ x

/-- A move took what was under `a` away, and the later moves took it to `b`. -/
def MovedTo (moves : List (α × α)) (a b : α) : Prop :=
  ∃ before y after, moves = before ++ (a, y) :: after ∧ follow after y = b

theorem MovedTo.mem (h : MovedTo moves a b) : ∃ y, (a, y) ∈ moves := by
  obtain ⟨before, y, after, rfl, -⟩ := h
  exact ⟨y, List.mem_append_right _ (List.mem_cons_self)⟩

omit [DecidableEq α] in
/-- The last move took `x` away, or `x` was away and the last move did not bring it back. -/
theorem movedAway_concat :
    MovedAway (moves ++ [(a, b)]) x ↔ x = a ∨ (x ≠ b ∧ MovedAway moves x) := by
  constructor
  · rintro ⟨before, y, after, heq, hafter⟩
    rcases List.eq_nil_or_concat after with rfl | ⟨after, last, rfl⟩
    · obtain ⟨-, h⟩ := List.append_inj' heq rfl
      exact .inl (Prod.mk.inj (List.cons.inj h).1).1.symm
    · rw [List.concat_eq_append] at heq hafter
      rw [← List.cons_append, ← List.append_assoc] at heq
      obtain ⟨rfl, h⟩ := List.append_inj' heq rfl
      obtain rfl := (List.cons.inj h).1
      refine .inr ⟨(hafter (a, b) (by simp)).2.symm, before, y, after, rfl, fun move hmove ↦ ?_⟩
      exact hafter move (List.mem_append_left _ hmove)
  · rintro (rfl | ⟨hb, before, y, after, rfl, hafter⟩)
    · exact ⟨moves, b, [], rfl, by simp⟩
    · by_cases ha : x = a
      · subst ha
        exact ⟨before ++ (x, y) :: after, b, [], rfl, by simp⟩
      · refine ⟨before, y, after ++ [(a, b)], by simp, fun move hmove ↦ ?_⟩
        rcases List.mem_append.mp hmove with hmove | hmove
        · exact hafter move hmove
        · obtain rfl := List.mem_singleton.mp hmove
          exact ⟨Ne.symm ha, hb.symm⟩

/-- Following a name from where a move took it never leads to a name that is moved away. -/
theorem not_movedAway_follow (hab : a ≠ b) (hlater : ∀ move ∈ later, move.1 ≠ move.2) :
    ¬ MovedAway (moves ++ (a, b) :: later) (follow later b) := by
  induction later using List.reverseRecOn with
  | nil =>
    rw [movedAway_concat]
    rintro (h | ⟨h, -⟩)
    · exact hab h.symm
    · exact h rfl
  | append_singleton later move ih =>
    obtain ⟨hlater, hmove⟩ := List.forall_mem_append.mp hlater
    have hmove : move.1 ≠ move.2 := hmove move (List.mem_singleton_self move)
    rw [follow_append, ← List.cons_append, ← List.append_assoc, movedAway_concat]
    show ¬ (rename move.1 move.2 (follow later b) = move.1 ∨
      rename move.1 move.2 (follow later b) ≠ move.2 ∧ _)
    rintro (h | ⟨h, haway⟩)
    · exact rename_ne hmove _ h
    · by_cases heq : follow later b = move.1
      · exact h (by rw [heq, rename_self])
      · refine ih hlater ?_
        rwa [follow_cons, follow_nil, rename_of_ne heq] at haway

end Haki.Data
