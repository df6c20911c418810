import Haki.Data.Table

/-!
# Tables seen through a filter

`t.filter p` is what is visible of a table.  A lookup that only picks visible
rows finds the same rows in it; an update that keeps visible rows visible, and
an insertion whose key no invisible row has, commute with it; an update of
invisible rows and the insertion of one do not show.
-/

namespace Haki.Data

universe u v

section

variable {α : Type u} {β : Type v} {p q : α → Bool} {l : List α}

/-- A selection of visible elements. -/
theorem filter_filter_of_imp (h : ∀ a ∈ l, q a → p a) : (l.filter p).filter q = l.filter q := by
  rw [List.filter_filter]
  refine List.filter_congr fun a ha ↦ ?_
  cases hq : q a with
  | false => rfl
  | true => exact h a ha hq

theorem find?_filter_of_imp (h : ∀ a ∈ l, q a → p a) : (l.filter p).find? q = l.find? q := by
  rw [← List.head?_filter, ← List.head?_filter, filter_filter_of_imp h]

theorem countP_filter_of_imp (h : ∀ a ∈ l, q a → p a) : (l.filter p).countP q = l.countP q := by
  rw [List.countP_eq_length_filter, List.countP_eq_length_filter, filter_filter_of_imp h]

theorem filterMap_filter_of_imp {f : α → Option β} (h : ∀ a ∈ l, (f a).isSome → p a) :
    (l.filter p).filterMap f = l.filterMap f := by
  rw [List.filterMap_filter]
  refine List.filterMap_congr fun a ha ↦ ?_
  split
  · rfl
  · next hp => exact (Option.not_isSome_iff_eq_none.mp fun hs ↦ hp (h a ha hs)).symm

theorem filter_comm (p q : α → Bool) (l : List α) : (l.filter p).filter q = (l.filter q).filter p := by
  rw [List.filter_filter, List.filter_filter]
  exact List.filter_congr fun a _ ↦ Bool.and_comm _ _

/-- A rewriting that keeps what is visible. -/
theorem filter_map_of_eq {f : α → α} (h : ∀ a ∈ l, p (f a) = p a) :
    (l.map f).filter p = (l.filter p).map f := by
  rw [List.filter_map]
  exact congrArg _ (List.filter_congr h)

/-- A rewriting that keeps what is visible as it is. -/
theorem filter_map_of_fixed {f : α → α} (h : ∀ a ∈ l, p (f a) = p a ∧ (p a → f a = a)) :
    (l.map f).filter p = l.filter p := by
  rw [filter_map_of_eq fun a ha ↦ (h a ha).1]
  refine (List.map_congr_left fun a ha ↦ ?_).trans (List.map_id _)
  obtain ⟨ha, hp⟩ := List.mem_filter.mp ha
  exact (h a ha).2 hp

end

namespace Table

variable {α : Type u} {κ : Type v} [Keyed α κ] {t : Table α} {p q : α → Bool} {a : α} {k : κ}

theorem filter_comm (p q : α → Bool) (t : Table α) : (t.filter p).filter q = (t.filter q).filter p :=
  Table.ext (Haki.Data.filter_comm p q t.rows)

variable [DecidableEq κ]

theorem get?_filter (h : ∀ a ∈ t, key a = k → p a) : (t.filter p).get? k = t.get? k :=
  find?_filter_of_imp fun a ha hk ↦ h a ha (of_decide_eq_true hk)

/-- An invisible row is not found. -/
theorem get?_filter_eq (p : α → Bool) (t : Table α) (k : κ) :
    (t.filter p).get? k = (t.get? k).filter p := by
  cases hg : t.get? k with
  | none =>
    rw [Option.filter_none, get?_eq_none_iff]
    exact fun a ha ↦ get?_eq_none_iff.mp hg a (mem_filter.mp ha).1
  | some a =>
    obtain ⟨ha, rfl⟩ := get?_eq_some_iff.mp hg
    by_cases hp : p a = true
    · rw [Option.filter_some_pos hp]
      exact get?_eq_some_iff.mpr ⟨mem_filter.mpr ⟨ha, hp⟩, rfl⟩
    · rw [Option.filter_some_neg (eq_false_of_ne_true hp), get?_eq_none_iff]
      exact fun b hb hk ↦ hp (eq_of_key_eq (mem_filter.mp hb).1 ha hk ▸ (mem_filter.mp hb).2)

/-- A rewriting that keeps what is visible. -/
theorem filter_modify {f : α → α} (hf : ∀ a, key (f a) = key a) (h : ∀ a ∈ t, p (f a) = p a) :
    (t.modify f).filter p = (t.filter p).modify f := by
  ext1
  rw [rows_filter, rows_modify hf, rows_modify hf, rows_filter, filter_map_of_eq h]

/-- A rewriting that does not show. -/
theorem filter_modify_of_fixed {f : α → α} (hf : ∀ a, key (f a) = key a)
    (h : ∀ a ∈ t, p (f a) = p a ∧ (p a → f a = a)) : (t.modify f).filter p = t.filter p := by
  ext1
  rw [rows_filter, rows_modify hf, rows_filter, filter_map_of_fixed h]

/-- An update that keeps what is visible. -/
theorem filter_update {f : α → α} (hf : ∀ a, key (f a) = key a)
    (h : ∀ a ∈ t, key a = k → p (f a) = p a) :
    (t.update k f).filter p = (t.filter p).update k f := by
  refine filter_modify (fun a ↦ ?_) fun a ha ↦ ?_
  · split
    · exact hf a
    · rfl
  · split
    · next hk => exact h a ha hk
    · rfl

/-- An update of rows that are invisible before and after does not show. -/
theorem filter_update_of_false {f : α → α} (hf : ∀ a, key (f a) = key a)
    (h : ∀ a ∈ t, key a = k → p a = false ∧ p (f a) = false) :
    (t.update k f).filter p = t.filter p := by
  refine filter_modify_of_fixed (fun a ↦ ?_) fun a ha ↦ ?_
  · split
    · exact hf a
    · rfl
  · split
    · next hk =>
      obtain ⟨ha, hfa⟩ := h a ha hk
      exact ⟨hfa.trans ha.symm, fun hp ↦ by rw [ha] at hp; cases hp⟩
    · exact ⟨rfl, fun _ ↦ rfl⟩

/-- The insertion of a visible row whose key no invisible row has. -/
theorem filter_insert (ha : p a) (h : ∀ b ∈ t, key b = key a → p b) :
    (t.insert a).filter p = (t.filter p).insert a := by
  have hkeys : key a ∈ (t.filter p).rows.map key ↔ key a ∈ t.rows.map key := by
    rw [List.mem_map, List.mem_map]
    constructor
    · rintro ⟨b, hb, hk⟩
      exact ⟨b, (List.mem_filter.mp hb).1, hk⟩
    · rintro ⟨b, hb, hk⟩
      exact ⟨b, List.mem_filter.mpr ⟨hb, h b hb hk⟩, hk⟩
  ext1
  rw [rows_filter, insert, insert]
  by_cases hk : key a ∈ t.rows.map key
  · rw [dif_pos hk, dif_pos (hkeys.mpr hk), rows_filter]
  · rw [dif_neg hk, dif_neg (mt hkeys.mp hk), List.filter_append, List.filter_cons_of_pos ha,
      List.filter_nil]
    rfl

/-- The insertion of an invisible row does not show. -/
theorem filter_insert_of_false (ha : p a = false) : (t.insert a).filter p = t.filter p := by
  ext1
  rw [rows_filter, insert]
  split
  · rfl
  · rw [List.filter_append, List.filter_cons_of_neg (ne_true_of_eq_false ha), List.filter_nil,
      List.append_nil]
    rfl

/-- The insertion of visible rows whose keys no invisible row has. -/
theorem filter_foldl_insert {l : List α} (hl : ∀ a ∈ l, p a)
    (h : ∀ a ∈ l, ∀ b ∈ t, key b = key a → p b) :
    (l.foldl insert t).filter p = l.foldl insert (t.filter p) := by
  induction l generalizing t with
  | nil => rfl
  | cons a l ih =>
    obtain ⟨ha, hl⟩ := List.forall_mem_cons.mp hl
    obtain ⟨hta, htl⟩ := List.forall_mem_cons.mp h
    rw [List.foldl_cons, List.foldl_cons, ← filter_insert ha hta]
    refine ih hl fun c hc b hb hk ↦ ?_
    rcases mem_of_mem_insert hb with hb | rfl
    · exact htl c hc b hb hk
    · exact ha

/-- The insertion of invisible rows does not show. -/
theorem filter_foldl_insert_of_false {l : List α} (hl : ∀ a ∈ l, p a = false) :
    (l.foldl insert t).filter p = t.filter p := by
  induction l generalizing t with
  | nil => rfl
  | cons a l ih =>
    obtain ⟨ha, hl⟩ := List.forall_mem_cons.mp hl
    rw [List.foldl_cons, ih hl, filter_insert_of_false ha]

end Table

end Haki.Data
