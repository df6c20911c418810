import Haki.Control.Fold
import Mathlib.Data.List.Chain

/-!
# Runs as chains of states

A run seen from outside is a list of states, each related to the next one by a
step.  `isChain_phases` splits a run that goes over from one phase to another
and never back.  When what matters is what each step was taken for, a run is a
list of labels between two states, `Steps`.
-/

namespace Haki.Control

universe u v

variable {α : Type u} {r : α → α → Prop} {p q : α → Prop} {l : List α}

/-- A run whose steps never lead back from the phase `q` to the phase `p` is in `p` up to some step,
and in `q` from then on. -/
theorem isChain_phases (h : l.IsChain r) (hphase : ∀ a ∈ l, p a ∨ q a)
    (hback : ∀ a b, r a b → q a → ¬ p b) :
    ∃ l₁ l₂, l = l₁ ++ l₂ ∧ (∀ a ∈ l₁, p a) ∧ (∀ a ∈ l₂, q a) ∧
      ∀ a ∈ l₁.getLast?, ∀ b ∈ l₂.head?, r a b := by
  induction l with
  | nil => exact ⟨[], [], rfl, by simp, by simp, by simp⟩
  | cons a l ih =>
    obtain ⟨hhead, htail⟩ := List.isChain_cons.mp h
    obtain ⟨ha, hl⟩ := List.forall_mem_cons.mp hphase
    obtain ⟨l₁, l₂, rfl, h₁, h₂, hstep⟩ := ih htail hl
    cases l₁ with
    | nil =>
      rcases ha with ha | ha
      · refine ⟨[a], l₂, rfl, by simpa using ha, h₂, fun x hx b hb ↦ ?_⟩
        obtain rfl : a = x := by simpa using hx
        exact hhead b hb
      · exact ⟨[], a :: l₂, rfl, by simp, List.forall_mem_cons.mpr ⟨ha, h₂⟩, by simp⟩
    | cons x l₁ =>
      have ha : p a := by
        refine ha.resolve_right fun ha ↦ ?_
        exact hback a x (hhead x rfl) ha (h₁ x List.mem_cons_self)
      refine ⟨a :: x :: l₁, l₂, rfl, List.forall_mem_cons.mpr ⟨ha, h₁⟩, h₂, fun y hy ↦ hstep y ?_⟩
      rwa [List.getLast?_cons_cons] at hy

/-! ## Labelled runs -/

/-- The labels lead from one state to another by steps of `R`. -/
inductive Steps {σ : Type v} (R : σ → α → σ → Prop) : σ → List α → σ → Prop
  | nil (s : σ) : Steps R s [] s
  | cons {s t s' : σ} {x : α} {xs : List α} (head : R s x t) (tail : Steps R t xs s') :
    Steps R s (x :: xs) s'

namespace Steps

variable {σ : Type v} {R : σ → α → σ → Prop} {s t s' : σ} {x : α} {xs ys : List α}

theorem append (h : Steps R s xs t) (h' : Steps R t ys s') : Steps R s (xs ++ ys) s' := by
  induction h with
  | nil => exact h'
  | cons head _ ih => exact .cons head (ih h')

/-- A run seen through a function of its states. -/
theorem map {τ : Type v} {Q : τ → α → τ → Prop} {f : σ → τ}
    (hf : ∀ s x t, R s x t → Q (f s) x (f t)) (h : Steps R s xs t) : Steps Q (f s) xs (f t) := by
  induction h with
  | nil => exact .nil _
  | cons head _ ih => exact .cons (hf _ _ _ head) ih

/-- **Accounting rule.**  What single steps meet and composition keeps, runs meet. -/
theorem total {T : σ → List α → σ → Prop} (hnil : ∀ s, T s [] s)
    (hcons : ∀ s x t xs s', R s x t → T t xs s' → T s (x :: xs) s') (h : Steps R s xs t) :
    T s xs t := by
  induction h with
  | nil => exact hnil _
  | cons head _ ih => exact hcons _ _ _ _ _ head ih

/-- A run of a failing step whose steps meet `C` is a run of what each step does. -/
theorem of_foldlM {ε : Type u} {α : Type v} {f : σ → α → Except ε σ} {C : σ → α → Prop}
    {I : σ → Prop} {R : σ → α → σ → Prop}
    (hstep : ∀ s x t, I s → C s x → f s x = .ok t → I t ∧ R s x t) {s s' : σ} {xs : List α}
    (hI : I s) (hC : FoldMeets f C s xs) (h : xs.foldlM f s = .ok s') : Steps R s xs s' := by
  induction xs generalizing s with
  | nil => exact foldlM_nil_eq_ok.mp h ▸ .nil s
  | cons x xs ih =>
    obtain ⟨t, ht, h⟩ := foldlM_cons_eq_ok.mp h
    obtain ⟨hI, hR⟩ := hstep s x t hI hC.1 ht
    exact .cons hR (ih hI (hC.2 t ht) h)

end Steps

end Haki.Control
