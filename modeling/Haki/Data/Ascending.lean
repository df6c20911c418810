import Mathlib.Data.List.Sort
import Mathlib.Data.Prod.Lex

/-!
# Sorting by a key

Where the members of a list have different keys, the list has one arrangement
in which the keys ascend: sorting it depends on its members only, and commutes
with leaving some of them out.
-/

namespace Haki.Data

variable {α β κ : Type} [LinearOrder κ] {key : α → κ} {l l' : List α}

/-- The members in the order of their keys. -/
def ascending (key : α → κ) (l : List α) : List α := l.insertionSort fun a b ↦ key a ≤ key b

theorem ascending_perm (key : α → κ) (l : List α) : (ascending key l).Perm l :=
  List.perm_insertionSort _ l

@[simp] theorem mem_ascending {a : α} : a ∈ ascending key l ↔ a ∈ l :=
  (ascending_perm key l).mem_iff

theorem ascending_eq_nil : ascending key l = [] ↔ l = [] := by
  rw [← List.length_eq_zero_iff, (ascending_perm key l).length_eq, List.length_eq_zero_iff]

theorem pairwise_ascending (key : α → κ) (l : List α) :
    (ascending key l).Pairwise fun a b ↦ key a ≤ key b :=
  List.pairwise_insertionSort _ l

/-- The first member has the least key. -/
theorem head?_ascending_le (key : α → κ) {a : α} (h : a ∈ l) :
    ∃ b ∈ (ascending key l).head?, key b ≤ key a := by
  have hmem : a ∈ ascending key l := mem_ascending.mpr h
  have hsorted := pairwise_ascending key l
  cases hl : ascending key l with
  | nil =>
    rw [hl] at hmem
    cases hmem
  | cons b rest =>
    rw [hl] at hmem hsorted
    refine ⟨b, rfl, ?_⟩
    rcases List.mem_cons.mp hmem with rfl | hrest
    · exact le_rfl
    · exact (List.pairwise_cons.mp hsorted).1 a hrest

/-- Two arrangements in which the keys ascend are the same. -/
theorem eq_of_ascends (hkey : ∀ a ∈ l, ∀ b ∈ l, key a = key b → a = b)
    (hl : l.Pairwise fun a b ↦ key a ≤ key b) (hl' : l'.Pairwise fun a b ↦ key a ≤ key b)
    (h : l.Perm l') : l = l' :=
  h.eq_of_pairwise (fun a b ha hb hab hba ↦ hkey a ha b (h.mem_iff.mpr hb) (le_antisymm hab hba))
    hl hl'

theorem ascending_congr (hkey : ∀ a ∈ l, ∀ b ∈ l, key a = key b → a = b) (h : l.Perm l') :
    ascending key l = ascending key l' := by
  refine eq_of_ascends (fun a ha b hb ↦ ?_) (pairwise_ascending key l) (pairwise_ascending key l')
    (((ascending_perm key l).trans h).trans (ascending_perm key l').symm)
  exact hkey a (mem_ascending.mp ha) b (mem_ascending.mp hb)

theorem filter_ascending (hkey : ∀ a ∈ l, ∀ b ∈ l, key a = key b → a = b) (p : α → Bool) :
    (ascending key l).filter p = ascending key (l.filter p) := by
  refine eq_of_ascends (fun a ha b hb ↦ ?_) ((pairwise_ascending key l).filter p)
    (pairwise_ascending key _) (((ascending_perm key l).filter p).trans (ascending_perm key _).symm)
  exact hkey a (mem_ascending.mp (List.mem_of_mem_filter ha)) b
    (mem_ascending.mp (List.mem_of_mem_filter hb))

theorem map_ascending {f : α → β} {key' : β → κ} (h : ∀ a, key' (f a) = key a) (l : List α) :
    (ascending key l).map f = ascending key' (l.map f) :=
  List.map_insertionSort _ _ f l fun a _ b _ ↦ by rw [h, h]

/-- The keys in their order, whatever breaks the ties among them. -/
theorem map_ascending_toLex {ν : Type} [LinearOrder ν] (key : α → κ) (name name' : α → ν)
    (h : l.Perm l') :
    (ascending (fun a ↦ toLex (key a, name a)) l).map key =
      (ascending (fun a ↦ toLex (key a, name' a)) l').map key := by
  have hpairwise (name : α → ν) (l : List α) :
      ((ascending (fun a ↦ toLex (key a, name a)) l).map key).Pairwise fun k k' ↦ k ≤ k' := by
    refine List.pairwise_map.mpr ((pairwise_ascending _ l).imp fun {a b} hle ↦ ?_)
    rcases Prod.Lex.toLex_le_toLex.mp hle with hlt | ⟨heq, -⟩
    · exact le_of_lt hlt
    · exact le_of_eq heq
  refine eq_of_ascends (fun _ _ _ _ heq ↦ heq) (hpairwise name l) (hpairwise name' l') ?_
  exact (((ascending_perm _ l).trans h).trans (ascending_perm _ l').symm).map key

/-- What the keys determine agrees where the keys do. -/
theorem map_congr_of_map_eq {γ : Type} {f : α → β} (g : α → γ) (h : l.map f = l'.map f)
    (hg : ∀ a ∈ l, ∀ b ∈ l', f a = f b → g a = g b) : l.map g = l'.map g := by
  induction l generalizing l' with
  | nil => rw [List.map_eq_nil_iff.mp h.symm]
  | cons a as ih =>
    obtain ⟨b, bs, rfl, hab, hrest⟩ := List.map_eq_cons_iff.mp h.symm
    rw [List.map_cons, List.map_cons, hg a List.mem_cons_self b List.mem_cons_self hab.symm,
      ih hrest.symm fun a ha b hb ↦ hg a (List.mem_cons_of_mem _ ha) b (List.mem_cons_of_mem _ hb)]

end Haki.Data
