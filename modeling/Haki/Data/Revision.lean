import Haki.Control.Chain
import Haki.Data.Table

/-!
# Rows that are revised and kept

Two things that are said of a table whose rows are rewritten in place.  Every
row is still there, as a revision of what it was (`Table.Evolves`), and the
state of a row has moved along a graph (`Path`), one edge after the other.
-/

namespace Haki.Data

open Control

universe u v

/-! ## Paths -/

section

variable {σ : Type u} {next : σ → List σ} {s t u : σ} {path path' : List σ}

/-- The states of `path`, one after the other, lead from `s` to `t` along the graph `next`. -/
def Path (next : σ → List σ) : σ → List σ → σ → Prop := Steps fun s x t ↦ t = x ∧ x ∈ next s

namespace Path

theorem nil (s : σ) : Path next s [] s := Steps.nil s

theorem single (h : t ∈ next s) : Path next s [t] t := .cons ⟨rfl, h⟩ (.nil t)

theorem append (h : Path next s path t) (h' : Path next t path' u) :
    Path next s (path ++ path') u :=
  Steps.append h h'

/-- A path that ends in a state no edge leads to is empty. -/
theorem eq_of_initial (h : Path next s path t) (ht : ∀ x, t ∉ next x) : path = [] ∧ t = s := by
  induction h with
  | nil => exact ⟨rfl, rfl⟩
  | cons head _ ih =>
    obtain ⟨-, rfl⟩ := ih ht
    exact absurd (head.1 ▸ head.2) (ht _)

end Path

end

/-! ## Tables -/

namespace Table

variable {α : Type u} {κ : Type v} [Keyed α κ] {R : α → α → Prop} {New : α → Prop}
  {t t' t'' : Table α} {k : κ} {f : α → α}

/-- Every row of `t'` is a revision of a row of `t`, or of a new one. -/
def Descends (R : α → α → Prop) (New : α → Prop) (t t' : Table α) : Prop :=
  ∀ b ∈ t', (∃ a ∈ t, R a b) ∨ ∃ a, New a ∧ R a b

theorem Descends.trans (hR : ∀ a b c, R a b → R b c → R a c) (h : t.Descends R New t')
    (h' : t'.Descends R New t'') : t.Descends R New t'' := by
  intro c hc
  rcases h' c hc with ⟨b, hb, hbc⟩ | hnew
  · rcases h b hb with ⟨a, ha, hab⟩ | ⟨a, ha, hab⟩
    · exact .inl ⟨a, ha, hR a b c hab hbc⟩
    · exact .inr ⟨a, ha, hR a b c hab hbc⟩
  · exact .inr hnew

/-- Every row of `t` is in `t'`, up to a revision, and no other rows are but new ones. -/
structure Evolves (R : α → α → Prop) (New : α → Prop) (t t' : Table α) : Prop where
  kept : ∀ a ∈ t, ∃ b ∈ t', R a b
  born : t.Descends R New t'

namespace Evolves

theorem refl (hR : ∀ a, R a a) (t : Table α) : t.Evolves R New t :=
  ⟨fun a ha ↦ ⟨a, ha, hR a⟩, fun a ha ↦ .inl ⟨a, ha, hR a⟩⟩

theorem trans (hR : ∀ a b c, R a b → R b c → R a c) (h : t.Evolves R New t')
    (h' : t'.Evolves R New t'') : t.Evolves R New t'' where
  kept a ha := by
    obtain ⟨b, hb, hab⟩ := h.kept a ha
    obtain ⟨c, hc, hbc⟩ := h'.kept b hb
    exact ⟨c, hc, hR a b c hab hbc⟩
  born := h.born.trans hR h'.born

variable [DecidableEq κ]

theorem modify (hf : ∀ a, key (f a) = key a) (h : ∀ a ∈ t, R a (f a)) :
    t.Evolves R New (t.modify f) where
  kept a ha := ⟨f a, (mem_modify hf).mpr ⟨a, ha, rfl⟩, h a ha⟩
  born b hb := by
    obtain ⟨a, ha, rfl⟩ := (mem_modify hf).mp hb
    exact .inl ⟨a, ha, h a ha⟩

theorem update (hR : ∀ a, R a a) (hf : ∀ a, key (f a) = key a)
    (h : ∀ a ∈ t, key a = k → R a (f a)) : t.Evolves R New (t.update k f) := by
  have hkey (a : α) : key (if key a = k then f a else a) = key a := by
    split
    · exact hf a
    · rfl
  refine modify hkey fun a ha ↦ ?_
  split
  · next hk => exact h a ha hk
  · exact hR a

theorem insert (h : t.Evolves R New t') {a b : α} (ha : New a) (hab : R a b) :
    t.Evolves R New (t'.insert b) where
  kept c hc := by
    obtain ⟨d, hd, hcd⟩ := h.kept c hc
    exact ⟨d, mem_insert_of_mem hd, hcd⟩
  born c hc := by
    rcases mem_of_mem_insert hc with hc | rfl
    · exact h.born c hc
    · exact .inr ⟨a, ha, hab⟩

end Evolves

end Table

end Haki.Data
