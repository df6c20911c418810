import Mathlib.Logic.Relation

/-!
# Acyclic relations

A relation stays acyclic under new edges that all end in elements without
successors, or all start in elements without predecessors: no cycle passes
through such an element.
-/

namespace Haki.Data

universe u

variable {α : Type u} {r r' : α → α → Prop} {N : α → Prop}

/-- No element leads back to itself. -/
def Acyclic (r : α → α → Prop) : Prop := ∀ a, ¬ Relation.TransGen r a a

namespace Acyclic

/-- Fewer edges have fewer cycles. -/
theorem mono (h : Acyclic r) (hsub : ∀ a b, r' a b → r a b) : Acyclic r' :=
  fun a ha ↦ h a (Relation.TransGen.mono hsub a a ha)

/-- A path that does not end in a sink uses no edge into one. -/
theorem path_of_sink (hsub : ∀ a b, r' a b → r a b ∨ N b) (hn : ∀ a b, N a → ¬ r' a b) {a b : α}
    (h : Relation.TransGen r' a b) (hb : ¬ N b) : Relation.TransGen r a b := by
  induction h with
  | single hab => exact .single ((hsub _ _ hab).resolve_right hb)
  | @tail c d _ hcd ih =>
    have hc : ¬ N c := fun hc ↦ hn c d hc hcd
    exact .tail (ih hc) ((hsub c d hcd).resolve_right hb)

/-- New edges into elements without successors close no cycle. -/
theorem of_sink (h : Acyclic r) (hsub : ∀ a b, r' a b → r a b ∨ N b)
    (hn : ∀ a b, N a → ¬ r' a b) : Acyclic r' := by
  intro a ha
  obtain ⟨b, hab, -⟩ := Relation.TransGen.head'_iff.mp ha
  exact h a (path_of_sink hsub hn ha fun hN ↦ hn a b hN hab)

theorem flip (h : Acyclic r) : Acyclic (Function.swap r) :=
  fun a ha ↦ h a (Relation.transGen_swap.mp ha)

/-- New edges out of elements without predecessors close no cycle. -/
theorem of_source (h : Acyclic r) (hsub : ∀ a b, r' a b → r a b ∨ N a)
    (hn : ∀ a b, N b → ¬ r' a b) : Acyclic r' :=
  have hflip : Acyclic (Function.swap r') := h.flip.of_sink (fun a b ↦ hsub b a) fun a b ↦ hn b a
  hflip.flip

end Acyclic

end Haki.Data
