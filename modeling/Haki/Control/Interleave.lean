import Haki.Control.Chain
import Mathlib.Data.Finset.Card
import Mathlib.Logic.Function.Basic

/-!
# Interleaved handlers

Handlers that each keep a state of their own take turns on a state they share.
A run is any order of their turns, and of what happens to the shared state
without them.  `Handlers.invariant` reduces an invariant of all runs to three
facts: what a turn does to the shared state and to the handler that takes it,
that it keeps what every other handler relies on, and that the environment does.
-/

namespace Haki.Control

universe u

/-- Handlers `ι` with states `τ` over a shared state `σ`.  A turn that cannot be taken is `none`. -/
structure Handlers (ι μ ε σ τ : Type u) where
  /-- What a handler can do: `μ` is what is left open about a turn. -/
  turn : ι → μ → σ → τ → Option (σ × τ)
  /-- What can happen to the shared state. -/
  env : ε → σ → Option σ

/-- The states of a run. -/
structure Config (ι σ τ : Type u) where
  shared : σ
  own : ι → τ

/-- The steps of a run. -/
inductive Move (ι μ ε : Type u) where
  | turn (i : ι) (m : μ)
  | env (e : ε)
deriving DecidableEq, Repr

namespace Handlers

variable {ι μ ε σ τ : Type u} [DecidableEq ι] (H : Handlers ι μ ε σ τ)

/-- One step of a run. -/
def step (c : Config ι σ τ) : Move ι μ ε → Option (Config ι σ τ)
  | .turn i m => (H.turn i m c.shared (c.own i)).map fun r ↦ ⟨r.1, Function.update c.own i r.2⟩
  | .env e => (H.env e c.shared).map fun s ↦ ⟨s, c.own⟩

/-- The run of a list of steps. -/
def run : Config ι σ τ → List (Move ι μ ε) → Option (Config ι σ τ)
  | c, [] => some c
  | c, x :: xs => (H.step c x).bind fun c' ↦ run c' xs

/-- The runs whose steps all meet a condition. -/
abbrev Runs (C : Config ι σ τ → Move ι μ ε → Prop) :
    Config ι σ τ → List (Move ι μ ε) → Config ι σ τ → Prop :=
  Steps fun c x c' ↦ C c x ∧ H.step c x = some c'

/-- Every step of the list meets a condition, where it is taken. -/
def AllMeet (C : Config ι σ τ → Move ι μ ε → Prop) : Config ι σ τ → List (Move ι μ ε) → Prop
  | _, [] => True
  | c, x :: xs => C c x ∧ ∀ c' ∈ H.step c x, AllMeet C c' xs

/-- Whether the steps of a list meet a condition can be found out by running it. -/
instance decidableAllMeet (C : Config ι σ τ → Move ι μ ε → Prop) [∀ c x, Decidable (C c x)] :
    ∀ c xs, Decidable (H.AllMeet C c xs)
  | _, [] => isTrue trivial
  | c, x :: xs =>
    have : ∀ c', Decidable (H.AllMeet C c' xs) := fun c' ↦ decidableAllMeet C c' xs
    inferInstanceAs (Decidable (C c x ∧ ∀ c' ∈ H.step c x, H.AllMeet C c' xs))

variable {H} {C : Config ι σ τ → Move ι μ ε → Prop} {c c' : Config ι σ τ} {x : Move ι μ ε}
  {xs : List (Move ι μ ε)}

/-- What one step does. -/
theorem step_eq_some : H.step c x = some c' ↔
    (∃ i m s t, x = .turn i m ∧ H.turn i m c.shared (c.own i) = some (s, t) ∧
      c' = ⟨s, Function.update c.own i t⟩) ∨
    ∃ e s, x = .env e ∧ H.env e c.shared = some s ∧ c' = ⟨s, c.own⟩ := by
  cases x with
  | turn i m =>
    rw [step, Option.map_eq_some_iff]
    constructor
    · rintro ⟨⟨s, t⟩, hturn, rfl⟩
      exact .inl ⟨i, m, s, t, rfl, hturn, rfl⟩
    · rintro (⟨i', m', s, t, heq, hturn, rfl⟩ | ⟨e, s, heq, -⟩)
      · cases heq
        exact ⟨(s, t), hturn, rfl⟩
      · cases heq
  | env e =>
    rw [step, Option.map_eq_some_iff]
    constructor
    · rintro ⟨s, henv, rfl⟩
      exact .inr ⟨e, s, rfl, henv, rfl⟩
    · rintro (⟨i, m, s, t, heq, -⟩ | ⟨e', s, heq, henv, rfl⟩)
      · cases heq
      · cases heq
        exact ⟨s, henv, rfl⟩

/-- The list of a run can be run. -/
theorem runs_iff : H.Runs (fun _ _ ↦ True) c xs c' ↔ H.run c xs = some c' := by
  induction xs generalizing c with
  | nil =>
    rw [run, Option.some_inj]
    constructor
    · rintro ⟨⟩
      rfl
    · rintro rfl
      exact .nil _
  | cons x xs ih =>
    rw [run, Option.bind_eq_some_iff]
    constructor
    · rintro (_ | ⟨⟨-, hstep⟩, htail⟩)
      exact ⟨_, hstep, ih.mp htail⟩
    · rintro ⟨c'', hstep, htail⟩
      exact .cons ⟨trivial, hstep⟩ (ih.mpr htail)

/-- A run that can be run, and whose steps meet the condition. -/
theorem runs_of_allMeet (h : H.run c xs = some c') (hC : H.AllMeet C c xs) : H.Runs C c xs c' := by
  induction xs generalizing c with
  | nil =>
    obtain rfl := Option.some.inj h
    exact .nil _
  | cons x xs ih =>
    obtain ⟨c'', hstep, h⟩ := Option.bind_eq_some_iff.mp h
    exact .cons ⟨hC.1, hstep⟩ (ih h (hC.2 c'' hstep))

/-- **Invariant rule.**  What turns and the environment keep, runs keep. -/
theorem Runs.preserves {I : Config ι σ τ → Prop}
    (hturn : ∀ c i m s t, I c → C c (.turn i m) → H.turn i m c.shared (c.own i) = some (s, t) →
      I ⟨s, Function.update c.own i t⟩)
    (henv : ∀ c e s, I c → C c (.env e) → H.env e c.shared = some s → I ⟨s, c.own⟩)
    (hI : I c) (h : H.Runs C c xs c') : I c' := by
  induction h with
  | nil => exact hI
  | cons head _ ih =>
    refine ih ?_
    rcases step_eq_some.mp head.2 with ⟨i, m, s, t, rfl, hact, rfl⟩ | ⟨e, s, rfl, hact, rfl⟩
    · exact hturn _ i m s t hI head.1 hact
    · exact henv _ e s hI head.1 hact

/-! ## Invariants of the parts -/

/-- What the shared state meets, and every handler's own. -/
structure Meets (J : σ → Prop) (P : ι → σ → τ → Prop) (c : Config ι σ τ) : Prop where
  shared : J c.shared
  own : ∀ i, P i c.shared (c.own i)

/-- What the steps of a run meeting `C` do to the invariant of `J` and `P`. -/
structure Inductive (H : Handlers ι μ ε σ τ) (C : Config ι σ τ → Move ι μ ε → Prop)
    (J : σ → Prop) (P : ι → σ → τ → Prop) : Prop where
  /-- A turn keeps the shared part, and what its handler meets. -/
  turn : ∀ c i m s t, Meets J P c → C c (.turn i m) →
    H.turn i m c.shared (c.own i) = some (s, t) → J s ∧ P i s t
  /-- A turn keeps what the others meet. -/
  frame : ∀ c i m s t j, Meets J P c → C c (.turn i m) →
    H.turn i m c.shared (c.own i) = some (s, t) → j ≠ i → P j s (c.own j)
  /-- The environment keeps everything. -/
  env : ∀ c e s, Meets J P c → C c (.env e) → H.env e c.shared = some s →
    J s ∧ ∀ i, P i s (c.own i)

variable {J : σ → Prop} {P : ι → σ → τ → Prop}

/-- **Modular invariant rule.** -/
theorem Inductive.runs (hind : Inductive H C J P) (hc : Meets J P c) (h : H.Runs C c xs c') :
    Meets J P c' := by
  refine h.preserves (fun c i m s t hc hC hturn ↦ ?_) (fun c e s hc hC henv ↦ ?_) hc
  · obtain ⟨hJ, hP⟩ := hind.turn c i m s t hc hC hturn
    refine ⟨hJ, (Function.forall_update_iff c.own fun j x ↦ P j s x).mpr ⟨hP, fun j hj ↦ ?_⟩⟩
    exact hind.frame c i m s t j hc hC hturn hj
  · obtain ⟨hJ, hP⟩ := hind.env c e s hc hC henv
    exact ⟨hJ, hP⟩

end Handlers

/-! ## At most one handler -/

section AtMostOne

variable {ι τ : Type u} [DecidableEq ι] {own : ι → τ} {T : τ → Prop} {i : ι} {t : τ}

/-- No two handlers are in a state of a kind. -/
def AtMostOne (T : τ → Prop) (own : ι → τ) : Prop := ∀ i j, T (own i) → T (own j) → i = j

/-- A handler enters a state of the kind when no other one is in one. -/
theorem AtMostOne.enter (h : AtMostOne T own) (hone : T t → ∀ j, j ≠ i → ¬ T (own j)) :
    AtMostOne T (Function.update own i t) := by
  intro j k
  by_cases hj : j = i <;> by_cases hk : k = i
  · exact fun _ _ ↦ hj.trans hk.symm
  · subst hj
    rw [Function.update_self, Function.update_of_ne hk]
    exact fun ht hkT ↦ absurd hkT (hone ht k hk)
  · subst hk
    rw [Function.update_self, Function.update_of_ne hj]
    exact fun hjT ht ↦ absurd hjT (hone ht j hj)
  · rw [Function.update_of_ne hj, Function.update_of_ne hk]
    exact h j k

/-- A handler that stays in states of the kind, or leaves them. -/
theorem AtMostOne.stay (h : AtMostOne T own) (hstay : T t → T (own i)) :
    AtMostOne T (Function.update own i t) :=
  h.enter fun ht _ hj hjT ↦ hj (h _ _ hjT (hstay ht))

end AtMostOne

/-! ## So many handlers -/

section Counts

variable {ι τ : Type u} [DecidableEq ι] {own : ι → τ} {T U : τ → Prop} {i : ι} {t : τ} {m n : ℕ}

/-- As many handlers are in a state of a kind. -/
def Counts (T : τ → Prop) (own : ι → τ) (n : ℕ) : Prop :=
  ∃ who : Finset ι, (∀ j, j ∈ who ↔ T (own j)) ∧ who.card = n

omit [DecidableEq ι] in
theorem counts_zero (h : ∀ j, ¬ T (own j)) : Counts T own 0 :=
  ⟨∅, by simpa using h, rfl⟩

omit [DecidableEq ι] in
/-- A set of handlers in states of the kind is no larger. -/
theorem Counts.card_le (h : Counts T own n) {who : Finset ι} (hwho : ∀ j ∈ who, T (own j)) :
    who.card ≤ n := by
  obtain ⟨all, hall, rfl⟩ := h
  exact Finset.card_le_card fun j hj ↦ (hall j).mpr (hwho j hj)

omit [DecidableEq ι] in
/-- There are no more handlers of a narrower kind. -/
theorem Counts.le (h : Counts T own m) (h' : Counts U own n) (hTU : ∀ t, T t → U t) : m ≤ n := by
  obtain ⟨who, hwho, rfl⟩ := h
  exact h'.card_le fun j hj ↦ hTU _ ((hwho j).mp hj)

theorem Counts.enter (h : Counts T own n) (hi : ¬ T (own i)) (ht : T t) :
    Counts T (Function.update own i t) (n + 1) := by
  obtain ⟨who, hwho, rfl⟩ := h
  refine ⟨insert i who, fun j ↦ ?_, Finset.card_insert_of_notMem ((hwho i).not.mpr hi)⟩
  by_cases hj : j = i
  · subst hj
    rw [Function.update_self]
    exact iff_of_true (Finset.mem_insert_self _ _) ht
  · rw [Function.update_of_ne hj, Finset.mem_insert, or_iff_right hj, hwho]

theorem Counts.leave (h : Counts T own n) (hi : T (own i)) (ht : ¬ T t) :
    ∃ m, n = m + 1 ∧ Counts T (Function.update own i t) m := by
  obtain ⟨who, hwho, rfl⟩ := h
  refine ⟨(who.erase i).card, (Finset.card_erase_add_one ((hwho i).mpr hi)).symm,
    who.erase i, fun j ↦ ?_, rfl⟩
  by_cases hj : j = i
  · subst hj
    rw [Function.update_self]
    exact iff_of_false (Finset.notMem_erase _ _) ht
  · rw [Function.update_of_ne hj, Finset.mem_erase, and_iff_right hj, hwho]

theorem Counts.stay (h : Counts T own n) (hi : T t ↔ T (own i)) :
    Counts T (Function.update own i t) n := by
  obtain ⟨who, hwho, rfl⟩ := h
  refine ⟨who, fun j ↦ ?_, rfl⟩
  by_cases hj : j = i
  · subst hj
    rw [Function.update_self, hwho, hi]
  · rw [Function.update_of_ne hj, hwho]

end Counts

end Haki.Control
