import Mathlib.Data.List.Nodup
import Mathlib.Tactic.Common

/-!
# Keyed tables

A table is the list of its rows in insertion order, together with the proof
that no two rows carry the same primary key.  Every operation below returns a
table again, so a state built from them never has to argue about duplicate
keys, and a table is as good as a finite map: `get?` determines membership
(`mem_iff_get?`) and each operation has one `get?` law.

`insert` follows SQL: a row whose key is taken is not inserted.  `upsert`
follows an assignment `d[k] = v` on an insertion-ordered dictionary: an
existing key keeps its place.
-/

namespace Haki.Data

universe u v

/-- A row type with a primary key. -/
class Keyed (α : Type u) (κ : outParam (Type v)) where
  /-- The primary key of a row. -/
  key : α → κ

export Keyed (key)

/-- Rows in insertion order, no two with the same primary key. -/
@[ext]
structure Table (α : Type u) {κ : Type v} [Keyed α κ] where
  /-- The rows, oldest first. -/
  rows : List α
  /-- Primary keys are unique. -/
  nodup : (rows.map key).Nodup

namespace Table

variable {α : Type u} {κ : Type v} [Keyed α κ]

instance : Membership α (Table α) := ⟨fun t a ↦ a ∈ t.rows⟩

@[simp] theorem mem_rows {t : Table α} {a : α} : a ∈ t.rows ↔ a ∈ t := Iff.rfl

instance [DecidableEq α] (a : α) (t : Table α) : Decidable (a ∈ t) :=
  inferInstanceAs (Decidable (a ∈ t.rows))

instance (t : Table α) (p : α → Prop) [DecidablePred p] : Decidable (∃ a ∈ t, p a) :=
  inferInstanceAs (Decidable (∃ a ∈ t.rows, p a))

instance (t : Table α) (p : α → Prop) [DecidablePred p] : Decidable (∀ a ∈ t, p a) :=
  inferInstanceAs (Decidable (∀ a ∈ t.rows, p a))

/-- The table without rows. -/
def empty : Table α := ⟨[], List.nodup_nil⟩

@[simp] theorem rows_empty : (empty : Table α).rows = [] := rfl

@[simp] theorem notMem_empty (a : α) : a ∉ (empty : Table α) := List.not_mem_nil

/-- Two rows of a table with the same key are the same row. -/
theorem eq_of_key_eq {t : Table α} {a b : α} (ha : a ∈ t) (hb : b ∈ t) (h : key a = key b) :
    a = b :=
  List.inj_on_of_nodup_map t.nodup ha hb h

/-! ## Bulk operations -/

/-- The rows satisfying `p`. -/
def filter (t : Table α) (p : α → Bool) : Table α :=
  ⟨t.rows.filter p, t.nodup.sublist ((List.filter_sublist).map key)⟩

@[simp] theorem rows_filter (t : Table α) (p : α → Bool) : (t.filter p).rows = t.rows.filter p :=
  rfl

@[simp] theorem mem_filter {t : Table α} {p : α → Bool} {a : α} :
    a ∈ t.filter p ↔ a ∈ t ∧ p a :=
  List.mem_filter

/-- A table whose rows all satisfy `p`. -/
theorem filter_eq_self {t : Table α} {p : α → Bool} (h : ∀ a ∈ t, p a) : t.filter p = t :=
  Table.ext (List.filter_eq_self.mpr h)

variable [DecidableEq κ]

/-- Rewrite every row.  A primary key is never rewritten: where `f` would change it, the row
stays as it is. -/
def modify (t : Table α) (f : α → α) : Table α :=
  ⟨t.rows.map fun a ↦ if key (f a) = key a then f a else a, by
    have : (fun a ↦ key (if key (f a) = key a then f a else a)) = (key : α → κ) := by
      funext a
      split
      · assumption
      · rfl
    simpa [List.map_map, Function.comp_def, this] using t.nodup⟩

theorem rows_modify {f : α → α} (hf : ∀ a, key (f a) = key a) (t : Table α) :
    (t.modify f).rows = t.rows.map f :=
  List.map_congr_left fun a _ ↦ if_pos (hf a)

theorem mem_modify {f : α → α} (hf : ∀ a, key (f a) = key a) {t : Table α} {b : α} :
    b ∈ t.modify f ↔ ∃ a ∈ t, f a = b := by
  rw [← mem_rows, rows_modify hf, List.mem_map]
  rfl

/-- A rewriting only matters on the rows that are there. -/
theorem modify_congr {f g : α → α} {t : Table α} (h : ∀ a ∈ t, f a = g a) :
    t.modify f = t.modify g := by
  ext1
  exact List.map_congr_left fun a ha ↦ by rw [h a ha]

/-- Rewriting nothing. -/
theorem modify_id {f : α → α} (hf : ∀ a, f a = a) (t : Table α) : t.modify f = t := by
  ext1
  rw [rows_modify fun a ↦ congrArg key (hf a), funext hf, List.map_id']

/-! ## Lookup -/

/-- The row with primary key `k`. -/
def get? (t : Table α) (k : κ) : Option α := t.rows.find? fun a ↦ key a = k

theorem get?_eq_some_iff {t : Table α} {k : κ} {a : α} :
    t.get? k = some a ↔ a ∈ t ∧ key a = k := by
  constructor
  · intro h
    exact ⟨List.mem_of_find?_eq_some h, by simpa using List.find?_some h⟩
  · rintro ⟨ha, rfl⟩
    cases hg : t.get? (key a) with
    | none =>
      have := List.find?_eq_none.mp hg a ha
      simp at this
    | some b =>
      have hb : b ∈ t := List.mem_of_find?_eq_some hg
      have hk : key b = key a := by simpa using List.find?_some hg
      rw [eq_of_key_eq hb ha hk]

theorem get?_eq_none_iff {t : Table α} {k : κ} : t.get? k = none ↔ ∀ a ∈ t, key a ≠ k := by
  simp only [get?, List.find?_eq_none, mem_rows, decide_eq_true_eq, ne_eq]

theorem mem_iff_get? {t : Table α} {a : α} : a ∈ t ↔ t.get? (key a) = some a := by
  simp [get?_eq_some_iff]

theorem mem_of_get? {t : Table α} {k : κ} {a : α} (h : t.get? k = some a) : a ∈ t :=
  (get?_eq_some_iff.mp h).1

theorem key_of_get? {t : Table α} {k : κ} {a : α} (h : t.get? k = some a) : key a = k :=
  (get?_eq_some_iff.mp h).2

/-! ## Insertion -/

/-- `key a` is not taken yet. -/
def Fresh (t : Table α) (a : α) : Prop := ∀ b ∈ t, key b ≠ key a

omit [DecidableEq κ] in
theorem Fresh.notMem_keys {t : Table α} {a : α} (h : t.Fresh a) : key a ∉ t.rows.map key := by
  rintro hm
  obtain ⟨b, hb, hk⟩ := List.mem_map.mp hm
  exact h b hb hk

/-- Append a row, unless its key is taken. -/
def insert (t : Table α) (a : α) : Table α :=
  if h : key a ∈ t.rows.map key then t
  else ⟨t.rows ++ [a], by
    rw [List.map_append, List.map_singleton]
    exact List.nodup_append.mpr ⟨t.nodup, List.nodup_singleton _, by
      rintro x hx y hy rfl
      exact h (by simpa [List.mem_singleton.mp hy] using hx)⟩⟩

theorem rows_insert {t : Table α} {a : α} (h : t.Fresh a) : (t.insert a).rows = t.rows ++ [a] := by
  rw [insert, dif_neg h.notMem_keys]

theorem mem_insert {t : Table α} {a b : α} (h : t.Fresh a) : b ∈ t.insert a ↔ b ∈ t ∨ b = a := by
  rw [← mem_rows, rows_insert h, List.mem_append, List.mem_singleton, mem_rows]

theorem mem_insert_of_mem {t : Table α} {a b : α} (h : b ∈ t) : b ∈ t.insert a := by
  rw [insert]
  split
  · exact h
  · exact List.mem_append_left _ h

theorem mem_of_mem_insert {t : Table α} {a b : α} (h : b ∈ t.insert a) : b ∈ t ∨ b = a := by
  by_cases hk : key a ∈ t.rows.map key
  · rw [insert, dif_pos hk] at h
    exact .inl h
  · exact (mem_insert fun c hc hkc ↦ hk (List.mem_map.mpr ⟨c, hc, hkc⟩)).mp h

theorem mem_of_mem_foldl_insert {l : List α} {t : Table α} {b : α}
    (h : b ∈ l.foldl insert t) : b ∈ t ∨ b ∈ l := by
  induction l generalizing t with
  | nil => exact .inl h
  | cons a l ih =>
    rcases ih h with h | h
    · refine (mem_of_mem_insert h).imp_right ?_
      rintro rfl
      exact List.mem_cons_self
    · exact .inr (List.mem_cons_of_mem a h)

theorem mem_foldl_insert_of_mem {l : List α} {t : Table α} {b : α} (h : b ∈ t) :
    b ∈ l.foldl insert t := by
  induction l generalizing t with
  | nil => exact h
  | cons a l ih => exact ih (mem_insert_of_mem h)

/-- The primary keys. -/
def keys (t : Table α) : List κ := t.rows.map key

omit [DecidableEq κ] in
theorem mem_keys {t : Table α} {k : κ} : k ∈ t.keys ↔ ∃ a ∈ t, key a = k := List.mem_map

theorem keys_modify (t : Table α) (f : α → α) : (t.modify f).keys = t.keys := by
  rw [keys, modify, List.map_map]
  refine List.map_congr_left fun a _ ↦ ?_
  rw [Function.comp_apply]
  split
  · assumption
  · rfl

theorem mem_keys_insert {t : Table α} {a : α} {k : κ} :
    k ∈ (t.insert a).keys ↔ k ∈ t.keys ∨ k = key a := by
  rw [insert]
  split
  · next h => exact (or_iff_left_of_imp fun hk ↦ hk ▸ h).symm
  · rw [keys, List.map_append, List.map_singleton, List.mem_append, List.mem_singleton, keys]

theorem mem_keys_foldl_insert {l : List α} {t : Table α} {k : κ} :
    k ∈ (l.foldl insert t).keys ↔ k ∈ t.keys ∨ k ∈ l.map key := by
  induction l generalizing t with
  | nil => simp
  | cons a l ih => rw [List.foldl_cons, ih, mem_keys_insert, List.map_cons, List.mem_cons, or_assoc]

theorem get?_insert {t : Table α} {a : α} (h : t.Fresh a) (k : κ) :
    (t.insert a).get? k = if key a = k then some a else t.get? k := by
  have hk : key a = k → t.get? k = none := fun hk ↦
    get?_eq_none_iff.mpr fun b hb ↦ hk ▸ h b hb
  simp only [get?] at hk ⊢
  rw [rows_insert h, List.find?_append]
  split
  · next hka => simp [hk hka, hka]
  · next hka => simp [hka]

/-! ## Updates by key -/

/-- Rewrite the row with key `k`. -/
def update (t : Table α) (k : κ) (f : α → α) : Table α :=
  t.modify fun a ↦ if key a = k then f a else a

section

variable {k : κ} {f g : α → α} (hf : ∀ a, key a = k → key (f a) = key a)

include hf

private theorem key_ite (a : α) : key (if key a = k then f a else a) = key a := by
  split
  · next h => exact hf a h
  · rfl

theorem rows_update (t : Table α) :
    (t.update k f).rows = t.rows.map fun a ↦ if key a = k then f a else a :=
  rows_modify (key_ite hf) t

theorem mem_update {t : Table α} {b : α} :
    b ∈ t.update k f ↔ ∃ a ∈ t, (if key a = k then f a else a) = b :=
  mem_modify (key_ite hf)

theorem get?_update (t : Table α) (k' : κ) :
    (t.update k f).get? k' = if k' = k then (t.get? k').map f else t.get? k' := by
  cases hg : t.get? k' with
  | none =>
    have hn : (t.update k f).get? k' = none := by
      rw [get?_eq_none_iff] at hg ⊢
      intro b hb
      obtain ⟨a, ha, rfl⟩ := (mem_update hf).mp hb
      rw [key_ite hf]
      exact hg a ha
    simp [hn]
  | some a =>
    obtain ⟨ha, rfl⟩ := get?_eq_some_iff.mp hg
    have hs : (t.update k f).get? (key a) = some (if key a = k then f a else a) :=
      get?_eq_some_iff.mpr ⟨(mem_update hf).mpr ⟨a, ha, rfl⟩, key_ite hf a⟩
    rw [hs]
    split <;> rfl

/-- Updating the row just inserted inserts the updated row. -/
theorem update_insert_self {t : Table α} {a : α} (hk : key a = k) (h : t.Fresh a) :
    (t.insert a).update k f = t.insert (f a) := by
  have h' : t.Fresh (f a) := fun b hb ↦ by rw [hf a hk]; exact h b hb
  ext1
  rw [rows_update hf, rows_insert h, rows_insert h', List.map_append, List.map_singleton, if_pos hk]
  congr 1
  refine (List.map_congr_left fun b hb ↦ ?_).trans t.rows.map_id
  rw [if_neg (hk ▸ h b hb), id]

theorem Fresh.update {t : Table α} {a : α} (h : t.Fresh a) : (t.update k f).Fresh a := by
  intro b hb
  obtain ⟨c, hc, rfl⟩ := (mem_update hf).mp hb
  rw [key_ite hf]
  exact h c hc

/-- Updating an older row commutes with inserting a new one. -/
theorem update_insert_of_ne {t : Table α} {a : α} (hk : key a ≠ k) (h : t.Fresh a) :
    (t.insert a).update k f = (t.update k f).insert a := by
  ext1
  rw [rows_update hf, rows_insert h, rows_insert (h.update hf), rows_update hf, List.map_append,
    List.map_singleton, if_neg hk]

/-- Two updates of one row are the update with their composition. -/
theorem update_update_self (hg : ∀ a, key a = k → key (g a) = key a) (t : Table α) :
    (t.update k f).update k g = t.update k fun a ↦ g (f a) := by
  have hgf : ∀ a, key a = k → key (g (f a)) = key a := fun a ha ↦ by
    rw [hg _ ((hf a ha).trans ha), hf a ha]
  ext1
  simp only [rows_update hg, rows_update hf, rows_update hgf, List.map_map]
  refine List.map_congr_left fun a _ ↦ ?_
  simp only [Function.comp_apply]
  split
  · next h => rw [if_pos ((hf a h).trans h)]
  · rfl

/-- Updates of two rows are one rewriting. -/
theorem update_update_of_ne {l : κ} (hg : ∀ a, key a = l → key (g a) = key a) (hkl : k ≠ l)
    (t : Table α) :
    (t.update k f).update l g =
      t.modify fun a ↦ if key a = k then f a else if key a = l then g a else a := by
  have hfg : ∀ a, key (if key a = k then f a else if key a = l then g a else a) = key a := by
    intro a
    split
    · next h => exact hf a h
    · split
      · next h => exact hg a h
      · rfl
  ext1
  rw [rows_update hg, rows_update hf, rows_modify hfg, List.map_map]
  refine List.map_congr_left fun a _ ↦ ?_
  simp only [Function.comp_apply]
  by_cases h : key a = k
  · rw [if_pos h, if_pos h, if_neg fun hl ↦ hkl (h.symm.trans ((hf a h).symm.trans hl))]
  · rw [if_neg h, if_neg h]

end

/-- Replacing a row. -/
theorem mem_update_const {t : Table α} {a b : α} {k : κ} (ha : key a = k)
    (hb : b ∈ t.update k fun _ ↦ a) :
    b = a ∨ (b ∈ t ∧ key b ≠ k) := by
  obtain ⟨c, hc, rfl⟩ := (mem_update fun _ h ↦ ha.trans h.symm).mp hb
  split
  · exact .inl rfl
  · next hk => exact .inr ⟨hc, hk⟩

/-! ## Assignment -/

/-- `d[key a] = a`: replace the row with `a`'s key in place, or append `a`. -/
def upsert (t : Table α) (a : α) : Table α :=
  if key a ∈ t.rows.map key then t.update (key a) fun _ ↦ a else t.insert a

theorem get?_upsert (t : Table α) (a : α) (k : κ) :
    (t.upsert a).get? k = if key a = k then some a else t.get? k := by
  rw [upsert]
  split
  · next h =>
    obtain ⟨b, hb, hk⟩ := List.mem_map.mp h
    rw [get?_update fun _ h ↦ h.symm]
    by_cases e : k = key a
    · have hg : t.get? k = some b := get?_eq_some_iff.mpr ⟨hb, hk.trans e.symm⟩
      rw [if_pos e, if_pos e.symm, hg, Option.map_some]
    · rw [if_neg e, if_neg (Ne.symm e)]
  · next h =>
    exact get?_insert (fun b hb hk ↦ h (List.mem_map.mpr ⟨b, hb, hk⟩)) k

theorem mem_of_mem_upsert {t : Table α} {a b : α} (h : b ∈ t.upsert a) : b ∈ t ∨ b = a := by
  rw [mem_iff_get?, get?_upsert] at h
  split at h
  · exact .inr (Option.some.inj h).symm
  · exact .inl (mem_of_get? h)

/-- An assignment keeps the keys. -/
theorem exists_mem_upsert {t : Table α} {a b : α} (h : b ∈ t) : ∃ c ∈ t.upsert a, key c = key b := by
  by_cases hk : key a = key b
  · exact ⟨a, mem_iff_get?.mpr (by rw [get?_upsert, if_pos rfl]), hk⟩
  · exact ⟨b, mem_iff_get?.mpr (by rw [get?_upsert, if_neg hk, mem_iff_get?.mp h]), rfl⟩

theorem mem_of_mem_foldl_upsert {l : List α} {t : Table α} {b : α} (h : b ∈ l.foldl upsert t) :
    b ∈ t ∨ b ∈ l := by
  induction l generalizing t with
  | nil => exact .inl h
  | cons a l ih =>
    rcases ih h with h | h
    · refine (mem_of_mem_upsert h).imp_right ?_
      rintro rfl
      exact List.mem_cons_self
    · exact .inr (List.mem_cons_of_mem a h)

theorem exists_mem_foldl_upsert (l : List α) {t : Table α} {b : α} (h : b ∈ t) :
    ∃ c ∈ l.foldl upsert t, key c = key b := by
  induction l generalizing t b with
  | nil => exact ⟨b, h, rfl⟩
  | cons a l ih =>
    obtain ⟨c, hc, hcb⟩ := exists_mem_upsert (a := a) h
    obtain ⟨d, hd, hdc⟩ := ih hc
    exact ⟨d, hd, hdc.trans hcb⟩

/-- Assigning a row that is filtered out does not show. -/
theorem filter_upsert {p : α → Bool} {t : Table α} {a : α} (h : ∀ b, key b = key a → p b = false) :
    (t.upsert a).filter p = t.filter p := by
  have ha : p a = false := h a rfl
  ext1
  rw [upsert]
  split
  · have hrow (b : α) : p (if key b = key a then a else b) = p b := by
      split
      · next hk => rw [ha, h b hk]
      · rfl
    rw [rows_filter, rows_filter, rows_update fun _ hk ↦ hk.symm]
    induction t.rows with
    | nil => rfl
    | cons b l ih =>
      rw [List.map_cons, List.filter_cons, List.filter_cons, hrow, ih]
      split
      · next hb => rw [if_neg fun hk ↦ by rw [h b hk] at hb; cases hb]
      · rfl
  · next hk =>
    rw [rows_filter, rows_filter, rows_insert fun b hb hkb ↦ hk (List.mem_map.mpr ⟨b, hb, hkb⟩)]
    simp [List.filter_append, ha]

/-- `{**t, **s}`: the rows of `s` assigned to `t` one by one. -/
def merge (t s : Table α) : Table α := s.rows.foldl upsert t

private theorem get?_foldl_upsert (l : List α) (t : Table α) (k : κ) (hl : (l.map key).Nodup) :
    (l.foldl upsert t).get? k = (l.find? fun a ↦ key a = k).or (t.get? k) := by
  induction l generalizing t with
  | nil => rfl
  | cons a l ih =>
    rw [List.map_cons, List.nodup_cons] at hl
    rw [List.foldl_cons, ih _ hl.2, get?_upsert, List.find?_cons]
    by_cases hk : key a = k
    · have hn : l.find? (fun a ↦ key a = k) = none := by
        refine List.find?_eq_none.mpr fun b hb he ↦ hl.1 ?_
        exact hk ▸ List.mem_map.mpr ⟨b, hb, by simpa using he⟩
      simp [hk, hn]
    · simp [hk]

/-- Right-biased union: a key of `s` decides, the other keys are those of `t`. -/
theorem get?_merge (t s : Table α) (k : κ) : (t.merge s).get? k = (s.get? k).or (t.get? k) :=
  get?_foldl_upsert s.rows t k s.nodup

/-- A row of a merge comes from one of the two tables. -/
theorem mem_merge {t s : Table α} {a : α} (h : a ∈ t.merge s) :
    a ∈ s ∨ (a ∈ t ∧ s.get? (key a) = none) := by
  rw [mem_iff_get?, get?_merge] at h
  cases hs : s.get? (key a) with
  | none => exact .inr ⟨mem_iff_get?.mpr (by simpa [hs] using h), rfl⟩
  | some b => exact .inl (mem_iff_get?.mpr (by simpa [hs] using h))

/-- A merge keeps the keys. -/
theorem exists_mem_merge (s : Table α) {t : Table α} {a : α} (h : a ∈ t) :
    ∃ b ∈ t.merge s, key b = key a :=
  exists_mem_foldl_upsert s.rows h

end Table

end Haki.Data
