import Mathlib.Algebra.GroupWithZero.Nat
import Mathlib.Tactic.Common

/-!
# Runs of a failing step

`xs.foldlM f s` is a run: the step `f` applied to the elements of `xs` one
after the other, stopped by the first failure.  A run is reasoned about through
its steps.  `FoldMeets` says that a condition holds at every step the run
really takes, in the state it is taken in; `foldlM_invariant` and its variants
turn a fact about one step into a fact about the whole run.
-/

namespace Haki.Control

universe u v w

variable {ε : Type u} {σ : Type v} {α : Type v}

/-! ## `Except` -/

theorem bind_eq_ok {β γ : Type v} {x : Except ε β} {f : β → Except ε γ} {c : γ} :
    (x >>= f) = .ok c ↔ ∃ b, x = .ok b ∧ f b = .ok c := by
  cases x with
  | error e => simp [bind, Except.bind]
  | ok b => simp [bind, Except.bind]

theorem bind_eq_error {β γ : Type v} {x : Except ε β} {f : β → Except ε γ} {e : ε} :
    (x >>= f) = .error e ↔ x = .error e ∨ ∃ b, x = .ok b ∧ f b = .error e := by
  cases x with
  | error e' => simp [bind, Except.bind]
  | ok b => simp [bind, Except.bind]

@[simp] theorem ok_bind {β γ : Type v} (b : β) (f : β → Except ε γ) :
    ((.ok b : Except ε β) >>= f) = f b := rfl

@[simp] theorem error_bind {β γ : Type v} (e : ε) (f : β → Except ε γ) :
    ((.error e : Except ε β) >>= f) = .error e := rfl

theorem toOption_eq_some {β : Type v} {x : Except ε β} {b : β} :
    x.toOption = some b ↔ x = .ok b := by
  cases x <;> simp [Except.toOption]

theorem exists_eq_ok {β : Type v} {x : Except ε β} (h : x.toOption.isSome) : ∃ b, x = .ok b := by
  cases x with
  | error e => cases h
  | ok b => exact ⟨b, rfl⟩

/-- The error of a failed computation. -/
def failure? {β : Type v} : Except ε β → Option ε
  | .error e => some e
  | .ok _ => none

theorem failure?_eq_some {β : Type v} {x : Except ε β} {e : ε} :
    failure? x = some e ↔ x = .error e := by
  cases x <;> simp [failure?]

/-! ## Runs -/

/-- Every step that the run of `f` over the list takes from `s` meets `C`. -/
def FoldMeets (f : σ → α → Except ε σ) (C : σ → α → Prop) : σ → List α → Prop
  | _, [] => True
  | s, x :: xs => C s x ∧ ∀ s', f s x = .ok s' → FoldMeets f C s' xs

/-- Whether a run meets a condition can be found out by running it. -/
instance decidableFoldMeets (f : σ → α → Except ε σ) (C : σ → α → Prop)
    [∀ s x, Decidable (C s x)] : ∀ s xs, Decidable (FoldMeets f C s xs)
  | _, [] => isTrue trivial
  | s, x :: xs =>
    match h : f s x with
    | .ok t =>
      have := decidableFoldMeets f C t xs
      decidable_of_iff (C s x ∧ FoldMeets f C t xs)
        (and_congr_right' ⟨fun ht t' h' ↦ Except.ok.inj (h.symm.trans h') ▸ ht, fun ht ↦ ht t h⟩)
    | .error _ =>
      decidable_of_iff (C s x) ⟨fun hC ↦ ⟨hC, fun _ h' ↦ by cases h.symm.trans h'⟩, And.left⟩

variable {f : σ → α → Except ε σ}

/-- What follows from conditions a run meets is met. -/
theorem foldMeets_of_forall_meets {ι : Sort w} {C : ι → σ → α → Prop} {D : σ → α → Prop}
    (hCD : ∀ s x, (∀ i, C i s x) → D s x) {s : σ} {xs : List α}
    (h : ∀ i, FoldMeets f (C i) s xs) : FoldMeets f D s xs := by
  induction xs generalizing s with
  | nil => trivial
  | cons x xs ih => exact ⟨hCD s x fun i ↦ (h i).1, fun s' hs ↦ ih fun i ↦ (h i).2 s' hs⟩

/-- The condition that always holds is met. -/
theorem foldMeets_of_forall {C : σ → α → Prop} (h : ∀ s x, C s x) (s : σ) (xs : List α) :
    FoldMeets f C s xs := by
  induction xs generalizing s with
  | nil => trivial
  | cons x xs ih => exact ⟨h s x, fun s' _ ↦ ih s'⟩

/-- A condition on the elements alone is met by a run over elements that meet it. -/
theorem foldMeets_of_forall_mem {P : α → Prop} {xs : List α} (h : ∀ x ∈ xs, P x) (s : σ) :
    FoldMeets f (fun _ x ↦ P x) s xs := by
  induction xs generalizing s with
  | nil => trivial
  | cons x xs ih =>
    obtain ⟨hx, hxs⟩ := List.forall_mem_cons.mp h
    exact ⟨hx, fun s' _ ↦ ih hxs s'⟩

/-- A condition that follows from an invariant of the steps is met. -/
theorem foldMeets_of_invariant {C : σ → α → Prop} {I : σ → Prop} {xs : List α}
    (hstep : ∀ s, ∀ x ∈ xs, I s → C s x ∧ ∀ s', f s x = .ok s' → I s') {s : σ} (hs : I s) :
    FoldMeets f C s xs := by
  induction xs generalizing s with
  | nil => trivial
  | cons x xs ih =>
    obtain ⟨hC, hI⟩ := hstep s x List.mem_cons_self hs
    exact ⟨hC, fun s' h ↦ ih (fun s y hy ↦ hstep s y (List.mem_cons_of_mem _ hy)) (hI s' h)⟩

theorem FoldMeets.and {C D : σ → α → Prop} {s : σ} {xs : List α} (hC : FoldMeets f C s xs)
    (hD : FoldMeets f D s xs) : FoldMeets f (fun s x ↦ C s x ∧ D s x) s xs := by
  induction xs generalizing s with
  | nil => trivial
  | cons x xs ih => exact ⟨⟨hC.1, hD.1⟩, fun s' hs ↦ ih (hC.2 s' hs) (hD.2 s' hs)⟩

theorem foldlM_cons_eq_ok {x : α} {xs : List α} {s s' : σ} :
    (x :: xs).foldlM f s = .ok s' ↔ ∃ t, f s x = .ok t ∧ xs.foldlM f t = .ok s' := by
  rw [List.foldlM_cons, bind_eq_ok]

theorem foldlM_nil_eq_ok {s s' : σ} : ([] : List α).foldlM f s = .ok s' ↔ s = s' := by
  simp [pure, Except.pure]

/-- A run seen through a function of its states. -/
theorem foldlM_map {τ : Type v} {g : σ → τ} {f' : τ → α → Except ε τ}
    (hstep : ∀ s x, (f s x).map g = f' (g s) x) (s : σ) (xs : List α) :
    (xs.foldlM f s).map g = xs.foldlM f' (g s) := by
  induction xs generalizing s with
  | nil => rfl
  | cons x xs ih =>
    rw [List.foldlM_cons, List.foldlM_cons, ← hstep]
    cases f s x with
    | error e => rfl
    | ok t => exact ih t

/-- As `foldlM_map`, for a run whose steps keep an invariant. -/
theorem foldlM_map_of {τ : Type v} {g : σ → τ} {f' : τ → α → Except ε τ} {I : σ → Prop}
    {xs : List α} (hstep : ∀ s, ∀ x ∈ xs, I s → (f s x).map g = f' (g s) x)
    (hI : ∀ s, ∀ x ∈ xs, ∀ s', I s → f s x = .ok s' → I s') {s : σ} (hs : I s) :
    (xs.foldlM f s).map g = xs.foldlM f' (g s) := by
  induction xs generalizing s with
  | nil => rfl
  | cons x xs ih =>
    obtain ⟨hx, hxs⟩ := List.forall_mem_cons.mp fun y hy s ↦ hstep s y hy
    obtain ⟨hIx, hIxs⟩ := List.forall_mem_cons.mp fun y hy s ↦ hI s y hy
    rw [List.foldlM_cons, List.foldlM_cons, ← hx s hs]
    cases ht : f s x with
    | error e => rfl
    | ok t => exact ih (fun s y hy ↦ hxs y hy s) (fun s y hy ↦ hIxs y hy s) (hIx s t hs ht)

/-- **Invariant rule.**  What a step meeting `C` preserves, a run all of whose
steps meet `C` preserves. -/
theorem foldlM_invariant {C : σ → α → Prop} {I : σ → Prop}
    (hstep : ∀ s x s', I s → C s x → f s x = .ok s' → I s') {s s' : σ} {xs : List α}
    (hI : I s) (hC : FoldMeets f C s xs) (h : xs.foldlM f s = .ok s') : I s' := by
  induction xs generalizing s with
  | nil => exact foldlM_nil_eq_ok.mp h ▸ hI
  | cons x xs ih =>
    obtain ⟨t, ht, h⟩ := foldlM_cons_eq_ok.mp h
    exact ih (hstep s x t hI hC.1 ht) (hC.2 t ht) h

/-- **Invariant rule** for runs without a condition on their steps. -/
theorem foldlM_preserves {I : σ → Prop} (hstep : ∀ s x s', I s → f s x = .ok s' → I s')
    {s s' : σ} {xs : List α} (hI : I s) (h : xs.foldlM f s = .ok s') : I s' :=
  foldlM_invariant (C := fun _ _ ↦ True) (fun s x s' hI _ ↦ hstep s x s' hI) hI
    (foldMeets_of_forall (fun _ _ ↦ trivial) s xs) h

/-- **Simulation rule.**  If every step that meets `C` succeeds and is one step of a fold, a run all
of whose steps meet `C` succeeds and is the fold. -/
theorem foldlM_simulates {β : Type w} {C : σ → α → Prop} {R : σ → β → Prop} {g : β → α → β}
    (hstep : ∀ s b x, R s b → C s x → ∃ s', f s x = .ok s' ∧ R s' (g b x)) {s : σ} {b : β}
    {xs : List α} (hR : R s b) (hC : FoldMeets f C s xs) :
    ∃ s', xs.foldlM f s = .ok s' ∧ R s' (xs.foldl g b) := by
  induction xs generalizing s b with
  | nil => exact ⟨s, rfl, hR⟩
  | cons x xs ih =>
    obtain ⟨t, ht, hR⟩ := hstep s b x hR hC.1
    obtain ⟨s', hs', hR⟩ := ih hR (hC.2 t ht)
    exact ⟨s', foldlM_cons_eq_ok.mpr ⟨t, ht, hs'⟩, hR⟩

/-- **Totality rule.**  If every step that meets `C` succeeds and advances `I` by the weight of its
element, a run all of whose steps meet `C` succeeds and advances `I` by the weight of the list. -/
theorem foldlM_total {C : σ → α → Prop} {I : ℕ → σ → Prop} (w : α → ℕ)
    (hstep : ∀ n s x, I n s → C s x → ∃ s', f s x = .ok s' ∧ I (n + w x) s') {n : ℕ} {s : σ}
    {xs : List α} (hI : I n s) (hC : FoldMeets f C s xs) :
    ∃ s', xs.foldlM f s = .ok s' ∧ I (n + (xs.map w).sum) s' := by
  obtain ⟨s', hs', hI⟩ := foldlM_simulates (R := fun s n ↦ I n s) (g := fun n x ↦ n + w x)
    (fun s n x ↦ hstep n s x) hI hC
  have hsum : xs.foldl (fun n x ↦ n + w x) n = n + (xs.map w).sum := by
    rw [List.sum_eq_foldl, ← List.foldl_map]
    exact (List.foldl_assoc :
      (xs.map w).foldl (· + ·) (n + 0) = n + (xs.map w).foldl (· + ·) 0)
  exact ⟨s', hs', hsum ▸ hI⟩

/-- What a run adds to a counter is bounded by what its steps can add. -/
theorem foldlM_count_le {I : σ → Prop} {N : σ → ℕ} {w : α → ℕ}
    (hI : ∀ s x s', I s → f s x = .ok s' → I s')
    (hle : ∀ s x s', I s → f s x = .ok s' → N s' ≤ N s + w x) {s s' : σ} {xs : List α} (hs : I s)
    (h : xs.foldlM f s = .ok s') : N s' ≤ N s + (xs.map w).sum := by
  induction xs generalizing s with
  | nil => exact foldlM_nil_eq_ok.mp h ▸ Nat.le_refl _
  | cons x xs ih =>
    obtain ⟨t, ht, h⟩ := foldlM_cons_eq_ok.mp h
    have hstep := hle s x t hs ht
    have hrest := ih (hI s x t hs ht) h
    rw [List.map_cons, List.sum_cons]
    omega

/-- **Settling rule.**  If every step settles what its element stands for, and keeps settled what is,
a run settles what all its elements stand for. -/
theorem foldlM_settles {ι : Type w} {C : σ → α → Prop} {I : σ → Prop} {S : σ → ι → Prop}
    {L : α → List ι} {K : ι → Prop}
    (hstep : ∀ s x s', I s → C s x → f s x = .ok s' →
      I s' ∧ (∀ i ∈ L x, S s' i) ∧ ∀ i, K i → S s i → S s' i)
    {s s' : σ} {xs : List α} (hL : ∀ x ∈ xs, ∀ i ∈ L x, K i) (hI : I s) (hC : FoldMeets f C s xs)
    (h : xs.foldlM f s = .ok s') :
    I s' ∧ (∀ x ∈ xs, ∀ i ∈ L x, S s' i) ∧ ∀ i, K i → S s i → S s' i := by
  induction xs generalizing s with
  | nil =>
    obtain rfl := foldlM_nil_eq_ok.mp h
    exact ⟨hI, fun x hx ↦ (List.not_mem_nil hx).elim, fun i _ hi ↦ hi⟩
  | cons x xs ih =>
    obtain ⟨hLx, hL⟩ := List.forall_mem_cons.mp hL
    obtain ⟨t, ht, h⟩ := foldlM_cons_eq_ok.mp h
    obtain ⟨hIt, hown, hkeep⟩ := hstep s x t hI hC.1 ht
    obtain ⟨hI', hrest, hkeep'⟩ := ih hL hIt (hC.2 t ht) h
    refine ⟨hI', List.forall_mem_cons.mpr ⟨fun i hi ↦ ?_, hrest⟩, fun i hK hi ↦ ?_⟩
    · exact hkeep' i (hLx i hi) (hown i hi)
    · exact hkeep' i hK (hkeep i hK hi)

/-- **Counting rule.**  If a step adds all it can to a counter only when it meets `C`, and a run
adds all its steps can, then the run met `C` at every step. -/
theorem foldMeets_of_count {C : σ → α → Prop} {I : σ → Prop} {N : σ → ℕ} {w : α → ℕ}
    (hI : ∀ s x s', I s → f s x = .ok s' → I s')
    (hle : ∀ s x s', I s → f s x = .ok s' → N s' ≤ N s + w x)
    (heq : ∀ s x s', I s → f s x = .ok s' → N s' = N s + w x → C s x) {s s' : σ} {xs : List α}
    (hs : I s) (h : xs.foldlM f s = .ok s') (hN : N s' = N s + (xs.map w).sum) :
    FoldMeets f C s xs := by
  induction xs generalizing s with
  | nil => trivial
  | cons x xs ih =>
    obtain ⟨t, ht, h⟩ := foldlM_cons_eq_ok.mp h
    have hIt := hI s x t hs ht
    have hstep := hle s x t hs ht
    have hrest := foldlM_count_le hI hle hIt h
    rw [List.map_cons, List.sum_cons] at hN
    refine ⟨heq s x t hs ht (by omega), fun t' ht' ↦ ?_⟩
    obtain rfl := Except.ok.inj (ht.symm.trans ht')
    exact ih hIt h (by omega)

/-- **Condition rule.**  If a step that does not meet `C` establishes `B`, and every step keeps
`B`, then a run that ends without `B` met `C` at every step. -/
theorem foldMeets_of_final {C : σ → α → Prop} {I B : σ → Prop}
    (hI : ∀ s x s', I s → f s x = .ok s' → I s')
    (hstep : ∀ s x s', I s → ¬ C s x → f s x = .ok s' → B s')
    (hkeep : ∀ s x s', I s → B s → f s x = .ok s' → B s') {s s' : σ} {xs : List α} (hs : I s)
    (h : xs.foldlM f s = .ok s') (hB : ¬ B s') : FoldMeets f C s xs := by
  induction xs generalizing s with
  | nil => trivial
  | cons x xs ih =>
    obtain ⟨t, ht, h⟩ := foldlM_cons_eq_ok.mp h
    have hIt := hI s x t hs ht
    have hBt : ¬ B t := fun hBt ↦ hB <|
      (foldlM_preserves (I := fun s ↦ I s ∧ B s)
        (fun s x s' h hs ↦ ⟨hI s x s' h.1 hs, hkeep s x s' h.1 h.2 hs⟩) ⟨hIt, hBt⟩ h).2
    refine ⟨by_contra fun hC ↦ hBt (hstep s x t hs hC ht), fun t' ht' ↦ ?_⟩
    obtain rfl := Except.ok.inj (ht.symm.trans ht')
    exact ih hIt h

end Haki.Control
