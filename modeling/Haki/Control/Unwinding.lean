import Mathlib.Tactic.Common

/-!
# Unwinding

A system takes one action after another and answers each.  An observer has a
view of the state; some actions change the view, and the answers to some of them
are told to the observer.  If an action that does not concern the observer
leaves the view as it is, one that does can be run on the view, and an answer
that is told depends on the view alone, then the answers that are told, and the
view of the state at the end, are those of the run in which only the actions
that concern the observer are taken.
-/

namespace Haki.Control

universe u v w

section

variable {σ : Type u} {α : Type v} {β : Type w}

/-- The answers to a list of actions, and the state after the last one. -/
def answers (step : σ → α → β × σ) (s : σ) : List α → List (α × β) × σ
  | [] => ([], s)
  | a :: as =>
    let (b, s) := step s a
    let (bs, s) := answers step s as
    ((a, b) :: bs, s)

theorem answers_cons (step : σ → α → β × σ) (s : σ) (a : α) (as : List α) :
    answers step s (a :: as) = ((a, (step s a).1) :: (answers step (step s a).2 as).1,
      (answers step (step s a).2 as).2) := rfl

/-- A view that only the seen actions change, and that decides the answers that are told. -/
structure Unwinds (step : σ → α → β × σ) (view : σ → σ) (seen told : α → Bool) (Inv : σ → Prop)
    (Meets : α → Prop) : Prop where
  inv : ∀ s a, Inv s → Meets a → Inv (step s a).2
  hidden : ∀ s a, Inv s → Meets a → seen a = false → view (step s a).2 = view s
  kept : ∀ s a, Inv s → Meets a → seen a = true → (step (view s) a).2 = view (step s a).2
  answer : ∀ s a, Inv s → Meets a → told a = true →
    seen a = true ∧ (step (view s) a).1 = (step s a).1

variable {step : σ → α → β × σ} {view : σ → σ} {seen told : α → Bool} {Inv : σ → Prop}
  {Meets : α → Prop}

/-- **Unwinding.**  What is told of a run is told of the run of what is seen. -/
theorem Unwinds.answers (h : Unwinds step view seen told Inv Meets) {s : σ} (hs : Inv s)
    {as : List α} (has : ∀ a ∈ as, Meets a) :
    (answers step (view s) (as.filter seen)).1.filter (fun r ↦ told r.1) =
        (answers step s as).1.filter (fun r ↦ told r.1) ∧
      (answers step (view s) (as.filter seen)).2 = view (answers step s as).2 := by
  induction as generalizing s with
  | nil => exact ⟨rfl, rfl⟩
  | cons a as ih =>
    obtain ⟨ha, has⟩ := List.forall_mem_cons.mp has
    obtain ⟨hanswers, hview⟩ := ih (h.inv s a hs ha) has
    cases hseen : seen a with
    | true =>
      rw [List.filter_cons_of_pos hseen, answers_cons, answers_cons, h.kept s a hs ha hseen]
      refine ⟨?_, hview⟩
      rw [List.filter_cons, List.filter_cons, hanswers]
      split
      · next htold => rw [(h.answer s a hs ha htold).2]
      · rfl
    | false =>
      have htold : ¬ told a = true := by
        intro htold
        rw [(h.answer s a hs ha htold).1] at hseen
        cases hseen
      rw [List.filter_cons_of_neg (ne_true_of_eq_false hseen), answers_cons,
        ← h.hidden s a hs ha hseen]
      refine ⟨?_, hview⟩
      exact hanswers.trans (List.filter_cons_of_neg (p := fun r : α × β ↦ told r.1) htold).symm

end

end Haki.Control
