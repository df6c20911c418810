import Mathlib.Data.Finset.Card
import Mathlib.Data.List.Find
import Mathlib.Data.List.Perm.Basic
import Mathlib.Order.Bounds.Basic
import Mathlib.Order.Lattice

/-!
# Evidence gathered from sources

A counter, the latest time any source speaks of, and the sources themselves.
Each source counts once.  A source whose time is not taken still counts.
-/

namespace Haki.Data

variable {α ι τ : Type*}

/-- The later of two times, the first of which may be missing. -/
def later [LinearOrder τ] (t : Option τ) (u : τ) : Option τ := if t.all (· < u) then some u else t

theorem later_eq [LinearOrder τ] (t : Option τ) (u : τ) : later t u = some (t.elim u (max · u)) := by
  cases t with
  | none => rfl
  | some t =>
    by_cases h : t < u
    · simp [later, h, max_eq_right h.le]
    · simp [later, h, max_eq_left (not_lt.mp h)]

theorem isGreatest_later [LinearOrder τ] (t : Option τ) (u : τ) :
    IsGreatest {v | t = some v ∨ v = u} (t.elim u (max · u)) := by
  cases t with
  | none => exact ⟨.inr rfl, fun v hv ↦ (hv.resolve_left nofun).le⟩
  | some t =>
    refine ⟨?_, ?_⟩
    · rcases max_choice t u with h | h
      · exact .inl (congrArg some h.symm)
      · exact .inr h
    · rintro v (hv | rfl)
      · exact (Option.some.inj hv) ▸ le_max_left t u
      · exact le_max_right t v

/-- A set and a part of it that reaches as high have the same greatest element. -/
theorem isGreatest_iff_of_cofinal [PartialOrder τ] {S T : Set τ} (hsub : T ⊆ S)
    (hhigh : ∀ u ∈ S, ∃ v ∈ T, u ≤ v) {u : τ} : IsGreatest S u ↔ IsGreatest T u := by
  constructor
  · rintro ⟨hu, hbound⟩
    obtain ⟨v, hv, huv⟩ := hhigh u hu
    obtain rfl := huv.antisymm (hbound (hsub hv))
    exact ⟨hv, fun w hw ↦ hbound (hsub hw)⟩
  · rintro ⟨hu, hbound⟩
    refine ⟨hsub hu, fun w hw ↦ ?_⟩
    obtain ⟨v, hv, hwv⟩ := hhigh w hw
    exact hwv.trans (hbound hv)

theorem later_right_comm [LinearOrder τ] (t : Option τ) (u v : τ) :
    later (later t u) v = later (later t v) u := by
  rw [later_eq, later_eq t, later_eq, later_eq t]
  cases t with
  | none => exact congrArg some (max_comm u v)
  | some t => exact congrArg some (max_right_comm t u v)

/-- What the sources have said so far. -/
@[ext] structure Evidence (ι τ : Type*) where
  count : ℕ
  latest : Option τ
  sources : Finset ι

namespace Evidence

variable [DecidableEq ι] [LinearOrder τ]

/-- A source speaks, of a time or of none that is taken. -/
def add (s : Evidence ι τ) (i : ι) (t : Option τ) : Evidence ι τ :=
  if i ∈ s.sources then s
  else ⟨s.count + 1, t.elim s.latest (later s.latest), insert i s.sources⟩

variable {s s' : Evidence ι τ} {i j : ι} {t u : Option τ}

theorem add_of_mem (h : i ∈ s.sources) : s.add i t = s := if_pos h

theorem add_of_notMem (h : i ∉ s.sources) :
    s.add i t = ⟨s.count + 1, t.elim s.latest (later s.latest), insert i s.sources⟩ := if_neg h

theorem sources_add (s : Evidence ι τ) (i : ι) (t : Option τ) :
    (s.add i t).sources = insert i s.sources := by
  by_cases h : i ∈ s.sources
  · rw [add_of_mem h, Finset.insert_eq_of_mem h]
  · rw [add_of_notMem h]

/-- A source whose time is not taken leaves the latest time alone. -/
theorem latest_add_none (s : Evidence ι τ) (i : ι) : (s.add i none).latest = s.latest := by
  by_cases h : i ∈ s.sources
  · rw [add_of_mem h]
  · rw [add_of_notMem h]
    rfl

/-- Two different sources may speak in either order. -/
theorem add_right_comm (h : i ≠ j) : (s.add i t).add j u = (s.add j u).add i t := by
  by_cases hi : i ∈ s.sources
  · have hi' : i ∈ (s.add j u).sources := sources_add s j u ▸ Finset.mem_insert_of_mem hi
    rw [add_of_mem hi, add_of_mem hi']
  · by_cases hj : j ∈ s.sources
    · have hj' : j ∈ (s.add i t).sources := sources_add s i t ▸ Finset.mem_insert_of_mem hj
      rw [add_of_mem hj, add_of_mem hj']
    · rw [add_of_notMem hi, add_of_notMem hj, add_of_notMem, add_of_notMem]
      · ext1
        · rfl
        · cases t with
          | none => rfl
          | some t =>
            cases u with
            | none => rfl
            | some u => exact later_right_comm s.latest t u
        · exact Finset.insert_comm j i s.sources
      · exact Finset.mem_insert.not.mpr (not_or.mpr ⟨h, hi⟩)
      · exact Finset.mem_insert.not.mpr (not_or.mpr ⟨h.symm, hj⟩)

/-- What is counted beyond the sources never changes. -/
theorem count_add (s : Evidence ι τ) (i : ι) (t : Option τ) :
    (s.add i t).count + s.sources.card = s.count + (s.add i t).sources.card := by
  by_cases h : i ∈ s.sources
  · rw [add_of_mem h]
  · rw [add_of_notMem h, Finset.card_insert_of_notMem h, Nat.add_right_comm, Nat.add_assoc]

/-! ## A run of sources -/

section Gather

variable (source : α → ι) (time : α → Option τ)

/-- The sources of a list speak one after the other. -/
def gather (s : Evidence ι τ) (xs : List α) : Evidence ι τ :=
  xs.foldl (fun s x ↦ s.add (source x) (time x)) s

variable {source time} {x : α} {xs ys : List α}

@[simp] theorem gather_nil : gather source time s [] = s := rfl

@[simp] theorem gather_cons :
    gather source time s (x :: xs) = gather source time (s.add (source x) (time x)) xs := rfl

/-- **Order does not matter**, when every source always says the same. -/
theorem gather_perm (hsource : ∀ x ∈ xs, ∀ y ∈ xs, source x = source y → x = y)
    (h : xs.Perm ys) : gather source time s xs = gather source time s ys := by
  refine h.foldl_eq' (fun x hx y hy s ↦ ?_) s
  by_cases hxy : source x = source y
  · rw [hsource x hx y hy hxy]
  · exact add_right_comm hxy

/-- Every source that speaks is one of the sources. -/
theorem sources_gather (s : Evidence ι τ) (xs : List α) :
    (gather source time s xs).sources = s.sources ∪ (xs.map source).toFinset := by
  induction xs generalizing s with
  | nil => exact (Finset.union_empty _).symm
  | cons x xs ih =>
    rw [gather_cons, ih, sources_add, List.map_cons, List.toFinset_cons, Finset.union_insert,
      Finset.insert_union]

theorem count_gather (s : Evidence ι τ) (xs : List α) :
    (gather source time s xs).count + s.sources.card =
      s.count + (gather source time s xs).sources.card := by
  induction xs generalizing s with
  | nil => rfl
  | cons x xs ih =>
    have hadd := count_add s (source x) (time x)
    have htail := ih (s.add (source x) (time x))
    rw [gather_cons]
    omega

/-- Every new source counts once. -/
theorem count_gather_eq (s : Evidence ι τ) (xs : List α) :
    (gather source time s xs).count = s.count + ((xs.map source).toFinset \ s.sources).card := by
  have hcount : (gather source time s xs).count + s.sources.card =
      s.count + (gather source time s xs).sources.card := count_gather s xs
  rw [sources_gather, Finset.union_comm, ← Finset.card_sdiff_add_card] at hcount
  omega

/-- The latest time is the greatest that was there or that a new source speaks of. -/
theorem latest_gather (hsource : ∀ x ∈ xs, ∀ y ∈ xs, source x = source y → x = y) {u : τ} :
    (gather source time s xs).latest = some u ↔
      IsGreatest {u | s.latest = some u ∨ ∃ x ∈ xs, source x ∉ s.sources ∧ time x = some u} u := by
  induction xs generalizing s with
  | nil =>
    constructor
    · exact fun h ↦ ⟨.inl h, fun v hv ↦ by
        obtain hv | ⟨_, hx, -⟩ := hv
        · exact (Option.some.inj (h.symm.trans hv)).ge
        · cases hx⟩
    · rintro ⟨h | ⟨_, hx, -⟩, -⟩
      · exact h
      · cases hx
  | cons x xs ih =>
    have htail : ∀ x ∈ xs, ∀ y ∈ xs, source x = source y → x = y := fun y hy z hz ↦
      hsource y (.tail _ hy) z (.tail _ hz)
    rw [gather_cons, ih htail]
    by_cases hx : source x ∈ s.sources
    · -- The source has spoken before.
      rw [add_of_mem hx]
      simp only [List.exists_mem_cons_iff, hx, not_true_eq_false, false_and, false_or]
    · rw [add_of_notMem hx]
      refine (isGreatest_iff_of_cofinal ?_ ?_).symm
      · -- What is there after the source spoke was there, or is its time.
        rintro v (hv | ⟨y, hy, hnew, hv⟩)
        · cases ht : time x with
          | none =>
            rw [ht] at hv
            exact .inl hv
          | some t =>
            rw [ht, Option.elim_some, later_eq] at hv
            obtain rfl := Option.some.inj hv
            obtain h | h := (isGreatest_later s.latest t).1
            · exact .inl h
            · exact .inr ⟨x, .head _, hx, ht.trans (congrArg some h.symm)⟩
        · exact .inr ⟨y, .tail _ hy, fun h ↦ hnew (Finset.mem_insert_of_mem h), hv⟩
      · -- Nothing that was there, or is new, is later than what is there then.
        have hat (t : τ) (ht : time x = some t) (v : τ) (hv : s.latest = some v ∨ v = t) :
            ∃ w, (some w = (time x).elim s.latest (later s.latest)) ∧ v ≤ w :=
          ⟨_, by rw [ht, Option.elim_some, later_eq], (isGreatest_later s.latest t).2 hv⟩
        rintro v (hv | ⟨y, hy, hnew, hv⟩)
        · cases ht : time x with
          | none => exact ⟨v, .inl hv, le_rfl⟩
          | some t =>
            obtain ⟨w, hw, hvw⟩ := hat t ht v (.inl hv)
            exact ⟨w, .inl (ht ▸ hw.symm), hvw⟩
        · by_cases hxy : source y = source x
          · obtain rfl := hsource y hy x (.head _) hxy
            obtain ⟨w, hw, hvw⟩ := hat v hv v (.inr rfl)
            exact ⟨w, .inl hw.symm, hvw⟩
          · refine ⟨v, .inr ⟨y, ?_, ?_, hv⟩, le_rfl⟩
            · rcases List.mem_cons.mp hy with rfl | hy
              · exact absurd rfl hxy
              · exact hy
            · exact Finset.mem_insert.not.mpr (not_or.mpr ⟨hxy, hnew⟩)

/-- Sources whose time is not taken have no part in the latest time. -/
theorem latest_gather_filter (hsource : ∀ x ∈ xs, ∀ y ∈ xs, source x = source y → x = y) :
    (gather source time s xs).latest =
      (gather source time s (xs.filter fun x ↦ (time x).isSome)).latest := by
  suffices ∀ s s' : Evidence ι τ, s.latest = s'.latest →
      (∀ x ∈ xs, (time x).isSome → (source x ∈ s.sources ↔ source x ∈ s'.sources)) →
      (gather source time s xs).latest =
        (gather source time s' (xs.filter fun x ↦ (time x).isSome)).latest from
    this s s rfl fun _ _ _ ↦ Iff.rfl
  intro s s' hlatest hsame
  induction xs generalizing s s' with
  | nil => exact hlatest
  | cons x xs ih =>
    have htail : ∀ x ∈ xs, ∀ y ∈ xs, source x = source y → x = y := fun y hy z hz ↦
      hsource y (.tail _ hy) z (.tail _ hz)
    rw [gather_cons]
    by_cases hx : (time x).isSome
    · -- Both sides hear the source, or both have heard it already.
      rw [List.filter_cons_of_pos (p := fun x ↦ (time x).isSome) hx, gather_cons]
      have hmem := hsame x (.head _) hx
      refine ih htail _ _ ?_ fun y hy hy' ↦ ?_
      · by_cases h : source x ∈ s.sources
        · rw [add_of_mem h, add_of_mem (hmem.mp h), hlatest]
        · rw [add_of_notMem h, add_of_notMem (hmem.not.mp h), hlatest]
      · rw [sources_add, sources_add, Finset.mem_insert, Finset.mem_insert,
          hsame y (.tail _ hy) hy']
    · rw [List.filter_cons_of_neg (p := fun x ↦ (time x).isSome) hx]
      have hnone : time x = none := Option.not_isSome_iff_eq_none.mp hx
      refine ih htail _ _ ?_ fun y hy hy' ↦ ?_
      · rw [hnone, latest_add_none, hlatest]
      · have hne : source y ≠ source x := fun h ↦
          hx (hsource y (.tail _ hy) x (.head _) h ▸ hy')
        rw [sources_add, Finset.mem_insert, or_iff_right hne, hsame y (.tail _ hy) hy']

end Gather

/-! ## The clock along a run -/

/-- The latest time, or `b` as long as there is none. -/
def clock (b : τ) (s : Evidence ι τ) : τ := s.latest.getD b

theorem clock_le_later (b : τ) (t : Option τ) (u : τ) (h : t = none → b ≤ u) :
    t.getD b ≤ (later t u).getD b := by
  rw [later_eq, Option.getD_some]
  cases t with
  | none => exact h rfl
  | some t => exact le_max_left t u

/-- A measure of the states of a run never decreases when it does not in the first step, and does
not from there on. -/
theorem pairwise_scanl_cons {σ : Type*} {f : σ → α → σ} {g : σ → τ} {s : σ} {x : α} {xs : List α} :
    (((x :: xs).scanl f s).map g).Pairwise (· ≤ ·) ↔
      g s ≤ g (f s x) ∧ ((xs.scanl f (f s x)).map g).Pairwise (· ≤ ·) := by
  rw [List.scanl_cons, List.map_cons, List.pairwise_cons, and_congr_left_iff]
  intro htail
  have hhead : ∃ rest, xs.scanl f (f s x) = f s x :: rest := by
    cases xs with
    | nil => exact ⟨[], List.scanl_nil⟩
    | cons y ys => exact ⟨_, List.scanl_cons⟩
  obtain ⟨rest, hrest⟩ := hhead
  rw [hrest, List.map_cons] at htail ⊢
  rw [List.forall_mem_cons]
  exact ⟨And.left, fun h ↦ ⟨h, fun t ht ↦ h.trans ((List.pairwise_cons.mp htail).1 t ht)⟩⟩

section Clock

variable {source : α → ι} {time : α → Option τ} {xs : List α}

/-- **The clock never goes back** along a run unless the first time that is ever taken lies before
`b`. -/
theorem clock_pairwise_iff (b : τ) (hsource : ∀ x ∈ xs, ∀ y ∈ xs, source x = source y → x = y) :
    ((xs.scanl (fun s x ↦ s.add (source x) (time x)) s).map (clock b)).Pairwise (· ≤ ·) ↔
      s.latest.isSome ∨ ∀ x ∈ xs.find? fun x ↦ source x ∉ s.sources ∧ (time x).isSome,
        ∀ t ∈ time x, b ≤ t := by
  induction xs generalizing s with
  | nil => simp
  | cons x xs ih =>
    have htail : ∀ x ∈ xs, ∀ y ∈ xs, source x = source y → x = y := fun y hy z hz ↦
      hsource y (.tail _ hy) z (.tail _ hz)
    rw [pairwise_scanl_cons, ih htail]
    by_cases hx : source x ∈ s.sources
    · -- The source has spoken before.
      rw [add_of_mem hx, List.find?_cons_of_neg (by simp [hx]), and_iff_right le_rfl]
    · cases ht : time x with
      | none =>
        -- Another source whose time is taken is not this one.
        have hfind : xs.find? (fun y ↦ source y ∉ (s.add (source x) none).sources ∧
            (time y).isSome) = xs.find? fun y ↦ source y ∉ s.sources ∧ (time y).isSome := by
          refine List.find?_congr fun y hy ↦ decide_eq_decide.mpr (and_congr_left fun hy' ↦ ?_)
          have hne : source y ≠ source x := fun h ↦ by
            rw [hsource y (.tail _ hy) x (.head _) h, ht] at hy'
            cases hy'
          rw [sources_add, Finset.mem_insert, or_iff_right hne]
        rw [List.find?_cons_of_neg (by simp [ht]), latest_add_none, hfind]
        refine and_iff_right ?_
        rw [clock, clock, latest_add_none]
      | some t =>
        have hlatest : (s.add (source x) (some t)).latest = later s.latest t := by
          rw [add_of_notMem hx]
          rfl
        have hisSome : (later s.latest t).isSome := by rw [later_eq]; rfl
        rw [List.find?_cons_of_pos (by simp [hx, ht]), hlatest, and_iff_left (.inl hisSome), clock,
          clock, hlatest]
        constructor
        · intro h
          cases hs : s.latest with
          | some u => exact .inl rfl
          | none =>
            rw [hs] at h
            refine .inr ?_
            rintro _ ⟨⟩ u hu
            obtain rfl := Option.some.inj (ht.symm.trans hu)
            exact h
        · rintro (h | h)
          · exact clock_le_later b s.latest t fun hnone ↦ by rw [hnone] at h; cases h
          · exact clock_le_later b s.latest t fun _ ↦ h x rfl t ht

end Clock

end Evidence

end Haki.Data
