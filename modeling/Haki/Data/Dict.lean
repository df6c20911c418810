import Haki.Data.Canonical

/-!
# Objects by their lookups

Two objects have one canonical text exactly when they hold the same tree, up to
the order of the keys inside it, under every key.
-/

namespace Haki.Data

/-! ## Entries in key order -/

section SortByKey

variable {β : Type} {l l' : List (String × β)}

theorem pairwise_sortByKey (l : List (String × β)) :
    (sortByKey l).Pairwise fun a b ↦ ¬ b.1 < a.1 := by
  have : Std.Total fun a b : String × β ↦ ¬ b.1 < a.1 := ⟨fun a b ↦ String.le_total a.1 b.1⟩
  have : IsTrans (String × β) fun a b ↦ ¬ b.1 < a.1 :=
    ⟨fun _ _ _ hab hbc ↦ String.le_trans hab hbc⟩
  exact List.pairwise_insertionSort _ l

/-- Entries with different keys come in one order only. -/
theorem sortByKey_congr (hl : (l.map Prod.fst).Nodup) (hl' : (l'.map Prod.fst).Nodup)
    (h : ∀ e, e ∈ l ↔ e ∈ l') : sortByKey l = sortByKey l' := by
  have hperm : l.Perm l' :=
    (List.perm_ext_iff_of_nodup (List.Nodup.of_map _ hl) (List.Nodup.of_map _ hl')).mpr h
  refine List.Perm.eq_of_pairwise (fun a b ha hb hab hba ↦ ?_) (pairwise_sortByKey l)
    (pairwise_sortByKey l') (((List.perm_insertionSort _ l).trans hperm).trans
      (List.perm_insertionSort _ l').symm)
  exact List.inj_on_of_nodup_map hl' ((h a).mp (mem_sortByKey.mp ha)) (mem_sortByKey.mp hb)
    (String.le_antisymm hab hba)

end SortByKey

namespace Dict

variable {d e : Dict} {k : String} {v : PyJson}

/-! ## Lookups -/

theorem value?_eq_some_iff : d.value? k = some v ↔ (k, v) ∈ d := by
  rw [value?, Option.map_eq_some_iff]
  constructor
  · rintro ⟨⟨k', v'⟩, hget, rfl⟩
    obtain ⟨hmem, rfl⟩ := Table.get?_eq_some_iff.mp hget
    exact hmem
  · exact fun h ↦ ⟨(k, v), Table.get?_eq_some_iff.mpr ⟨h, rfl⟩, rfl⟩

/-- A key of the right side decides. -/
theorem value?_merge (d e : Dict) (k : String) :
    value? (d.merge e) k = (e.value? k).or (d.value? k) := by
  rw [value?, value?, value?, Table.get?_merge]
  cases e.get? k <;> rfl

theorem value?_dropNulls (d : Dict) (k : String) :
    d.dropNulls.value? k = (d.value? k).filter fun v ↦ decide (v ≠ .null) := by
  ext v
  rw [value?_eq_some_iff, Option.filter_eq_some_iff, value?_eq_some_iff]
  exact Table.mem_filter

/-! ## Canonical text -/

theorem mem_sortedEntries {s : PyJson} :
    (k, s) ∈ sortedEntries d.rows ↔ (d.value? k).map Json.sorted = some s := by
  rw [sortedEntries_eq, List.mem_map, Option.map_eq_some_iff]
  constructor
  · rintro ⟨⟨k', v⟩, hmem, h⟩
    obtain ⟨rfl, rfl⟩ := Prod.mk.inj h
    exact ⟨v, value?_eq_some_iff.mpr hmem, rfl⟩
  · rintro ⟨v, hv, rfl⟩
    exact ⟨(k, v), value?_eq_some_iff.mp hv, rfl⟩

theorem nodup_sortedEntries (d : Dict) : ((sortedEntries d.rows).map Prod.fst).Nodup := by
  rw [sortedEntries_eq, List.map_map]
  exact d.nodup

/-- The same tree under every key, up to the order of the keys inside it. -/
def Same (d e : Dict) : Prop := ∀ k, (d.value? k).map Json.sorted = (e.value? k).map Json.sorted

theorem Same.refl (d : Dict) : d.Same d := fun _ ↦ rfl

theorem Same.symm (h : d.Same e) : e.Same d := fun k ↦ (h k).symm

theorem Same.trans {f : Dict} (h : d.Same e) (h' : e.Same f) : d.Same f :=
  fun k ↦ (h k).trans (h' k)

theorem sorted_eq_iff : d.sorted = e.sorted ↔ d.Same e := by
  constructor
  · intro h k
    have hsorted : sortByKey (sortedEntries d.rows) = sortByKey (sortedEntries e.rows) :=
      Json.obj.inj h
    ext s
    rw [← mem_sortedEntries, ← mem_sortedEntries, ← mem_sortByKey, hsorted, mem_sortByKey]
  · intro h
    refine congrArg Json.obj (sortByKey_congr (nodup_sortedEntries d) (nodup_sortedEntries e) ?_)
    rintro ⟨k, s⟩
    rw [mem_sortedEntries, mem_sortedEntries, h k]

theorem canonical_of_same (h : d.Same e) : canonical d = canonical e :=
  canonical_of_sorted (sorted_eq_iff.mpr h)

theorem canonical_eq_iff_same (hd : d.WellFormed) (he : e.WellFormed) :
    canonical d = canonical e ↔ d.Same e :=
  (canonical_eq_iff hd he).trans sorted_eq_iff

/-! ## Well-formed numbers -/

theorem wellFormed_iff : d.WellFormed ↔ ∀ entry ∈ d, entry.2.WellFormed := by
  rw [WellFormed, Json.WellFormed, Json.numbers, numbersEntries_eq]
  simp only [List.mem_flatMap, forall_exists_index, and_imp]
  exact ⟨fun h entry hentry n hn ↦ h n entry hentry hn, fun h n entry hentry hn ↦ h entry hentry n hn⟩

/-- An object without numbers is well-formed. -/
theorem wellFormed_of_numbers (h : (Json.obj d.rows).numbers = []) : d.WellFormed := by
  rw [WellFormed, Json.WellFormed, h]
  exact List.forall_mem_nil _

theorem WellFormed.merge (hd : d.WellFormed) (he : e.WellFormed) :
    WellFormed (d.merge e) := by
  refine wellFormed_iff.mpr fun entry hentry ↦ ?_
  rcases Table.mem_merge hentry with h | ⟨h, -⟩
  · exact wellFormed_iff.mp he entry h
  · exact wellFormed_iff.mp hd entry h

theorem WellFormed.dropNulls (hd : d.WellFormed) : d.dropNulls.WellFormed :=
  wellFormed_iff.mpr fun entry hentry ↦ wellFormed_iff.mp hd entry (mem_dropNulls hentry)

/-! ## Updates -/

/-- Merge, right-biased, then drop the keys whose merged value is null. -/
def revise (d e : Dict) : Dict := Dict.dropNulls (d.merge e)

theorem value?_revise (d e : Dict) (k : String) :
    (d.revise e).value? k =
      ((e.value? k).or (d.value? k)).filter fun v ↦ decide (v ≠ .null) := by
  rw [revise, value?_dropNulls, value?_merge]

theorem WellFormed.revise (hd : d.WellFormed) (he : e.WellFormed) : (d.revise e).WellFormed :=
  (hd.merge he).dropNulls

/-- No key of the object is bound to null. -/
def NoNull (d : Dict) : Prop := ∀ k, d.value? k ≠ some .null

theorem noNull_iff : d.NoNull ↔ ∀ entry ∈ d, entry.2 ≠ .null := by
  constructor
  · rintro h ⟨k, v⟩ hentry rfl
    exact h k (value?_eq_some_iff.mpr hentry)
  · exact fun h k hk ↦ h (k, .null) (value?_eq_some_iff.mp hk) rfl

theorem noNull_revise (d e : Dict) : (d.revise e).NoNull := by
  intro k h
  rw [value?_revise, Option.filter_eq_some_iff] at h
  exact of_decide_eq_true h.2 rfl

/-- The update restates every key that is bound, and removes none. -/
def Restates (d e : Dict) : Prop :=
  e.NoNull ∧ ∀ k v, d.value? k = some v → v ≠ .null → (e.value? k).isSome

theorem sorted_eq_null : v.sorted = .null ↔ v = .null := by
  cases v <;> simp [Json.sorted]

/-- An update that restates everything is the whole value. -/
theorem revise_same_iff : (d.revise e).Same e ↔ d.Restates e := by
  constructor
  · intro h
    refine ⟨fun k hk ↦ ?_, fun k v hk hv ↦ ?_⟩
    · have := h k
      rw [value?_revise, hk] at this
      cases this
    · cases he : e.value? k with
      | some _ => rfl
      | none =>
        have := h k
        rw [value?_revise, he, hk, Option.none_or, Option.filter_some_pos (by simpa using hv)] at this
        cases this
  · rintro ⟨hnull, hkeys⟩ k
    rw [value?_revise]
    cases he : e.value? k with
    | some v =>
      have hv : v ≠ .null := fun hv ↦ hnull k (hv ▸ he)
      rw [Option.some_or, Option.filter_some_pos (by simpa using hv)]
    | none =>
      rw [Option.none_or]
      cases hd : d.value? k with
      | none => rfl
      | some v =>
        have hv : v = .null := by
          by_contra hv
          have := hkeys k v hd hv
          rw [he] at this
          cases this
        rw [hv]
        rfl

/-- What an update leaves depends on the trees only. -/
theorem Same.revise {d' e' : Dict} (hd : d.Same d') (he : e.Same e') :
    (d.revise e).Same (d'.revise e') := by
  have hfilter (o : Option PyJson) : (o.filter fun v ↦ decide (v ≠ .null)).map Json.sorted =
      (o.map Json.sorted).filter fun v ↦ decide (v ≠ .null) := by
    cases o with
    | none => rfl
    | some v =>
      by_cases hv : v = .null
      · rw [hv]
        rfl
      · rw [Option.filter_some_pos (by simpa using hv), Option.map_some,
          Option.filter_some_pos (by simpa using mt sorted_eq_null.mp hv)]
  intro k
  rw [value?_revise, value?_revise, hfilter, hfilter, Option.map_or, Option.map_or, hd k, he k]

theorem Same.noNull (h : d.Same e) (hd : d.NoNull) : e.NoNull := by
  intro k hk
  have hsame := h k
  rw [hk, Option.map_some, Option.map_eq_some_iff] at hsame
  obtain ⟨v, hv, hnull⟩ := hsame
  exact hd k (hv.trans (congrArg some (sorted_eq_null.mp hnull)))

/-- Saying the value again changes nothing. -/
theorem Same.revise_same (h : d.Same e) (hd : d.NoNull) : (d.revise e).Same d := by
  refine (revise_same_iff.mpr ⟨h.noNull hd, fun k v hv _ ↦ ?_⟩).trans h.symm
  have hsame := h k
  rw [hv, Option.map_some] at hsame
  exact Option.isSome_map.symm.trans (congrArg Option.isSome hsame.symm)

/-! ## Sequences of updates -/

/-- A key that no update mentions survives. -/
theorem value?_foldl_revise (hd : d.NoNull) {es : List Dict} (h : ∀ e ∈ es, e.value? k = none) :
    (es.foldl revise d).value? k = d.value? k := by
  induction es generalizing d with
  | nil => rfl
  | cons e es ih =>
    obtain ⟨he, hes⟩ := List.forall_mem_cons.mp h
    rw [List.foldl_cons, ih (noNull_revise d e) hes, value?_revise, he, Option.none_or]
    cases hv : d.value? k with
    | none => rfl
    | some v => exact Option.filter_some_pos (by simpa using fun hnull : v = .null ↦ hd k (hnull ▸ hv))

/-- A key that an update binds to null is removed, until an update mentions it again. -/
theorem value?_foldl_revise_of_null {pre post : List Dict} (he : e.value? k = some .null)
    (h : ∀ x ∈ post, x.value? k = none) : ((pre ++ e :: post).foldl revise d).value? k = none := by
  rw [List.foldl_append, List.foldl_cons, value?_foldl_revise (noNull_revise _ e) h, value?_revise, he]
  rfl

end Dict

end Haki.Data
