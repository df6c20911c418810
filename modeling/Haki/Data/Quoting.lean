import Mathlib.Data.List.Basic
import Mathlib.Tactic.Common

/-!
# Words between quotes

A text with words between quotes, in which the quote and perhaps other
characters are written twice.  Reading is a machine that looks at one character
at a time.  A quoted word is read back as that word, whatever is in it, when
what follows does not start with a quote; so a list of them is read back in
order.
-/

namespace Haki.Data

universe u v

/-- How a text with quoted words is read: `τ` are the tokens it is read into. -/
structure Quoting (α : Type u) (τ : Type v) where
  quote : α
  /-- What is written twice between quotes, next to the quote itself. -/
  escape : List α
  /-- The tokens of a character outside of quotes, if it may stand there. -/
  outside : α → Option (List τ)
  /-- The token of a word, if it is one. -/
  word : List α → Option τ

namespace Quoting

variable {α : Type u} {τ : Type v} [DecidableEq α] (G : Quoting α τ)

/-- What is written twice between quotes. -/
def doubled : List α := G.quote :: G.escape

/-- A character of a quoted word. -/
def double (c : α) : List α := if c ∈ G.doubled then [c, c] else [c]

/-- A word between quotes. -/
def quoted (w : List α) : List α := G.quote :: w.flatMap G.double ++ [G.quote]

/-- Where a reader is: outside of quotes, in a word, or after the first of what may be two of a
character in it. -/
inductive Place (α : Type u) where
  | outside
  | inside (w : List α)
  | once (w : List α) (c : α)
deriving DecidableEq, Repr

/-- Read a character outside of quotes. -/
def leave (c : α) : Option (Place α × List τ) :=
  if c = G.quote then some (.inside [], []) else (G.outside c).map fun ts ↦ (.outside, ts)

/-- Read a character of a word. -/
def enter (w : List α) (c : α) : Place α := if c ∈ G.doubled then .once w c else .inside (w ++ [c])

/-- Read a character. -/
def step : Place α → α → Option (Place α × List τ)
  | .outside, c => G.leave c
  | .inside w, c => some (G.enter w c, [])
  | .once w c, c' =>
    if c' = c then some (.inside (w ++ [c]), [])
    else if c = G.quote then (G.word w).bind fun t ↦ (G.leave c').map fun p ↦ (p.1, t :: p.2)
    else some (G.enter (w ++ [c]) c', [])

/-- The end of the text. -/
def finish : Place α → Option (List τ)
  | .outside => some []
  | .inside _ => none
  | .once w c => if c = G.quote then (G.word w).map fun t ↦ [t] else none

/-- The tokens of a text. -/
def read : Place α → List α → Option (List τ)
  | p, [] => G.finish p
  | p, c :: cs => (G.step p c).bind fun q ↦ (read q.1 cs).map fun ts ↦ q.2 ++ ts

variable {G} {c : α} {w s rest : List α} {t : τ} {ts : List τ}

@[simp] theorem read_outside_nil : G.read .outside [] = some [] := rfl

theorem read_outside_cons (hc : c ≠ G.quote) (hts : G.outside c = some ts) (rest : List α) :
    G.read .outside (c :: rest) = (G.read .outside rest).map fun us ↦ ts ++ us := by
  rw [read, step, leave, if_neg hc, hts]
  rfl

/-- A character of a quoted word is read back. -/
theorem read_double (w : List α) (c : α) (rest : List α) :
    G.read (.inside w) (G.double c ++ rest) = G.read (.inside (w ++ [c])) rest := by
  rw [double]
  split
  next hc =>
    simp only [List.cons_append, List.nil_append, read, step, enter, if_pos hc, if_true,
      Option.bind_some, Option.map_id']
  next hc =>
    simp only [List.cons_append, List.nil_append, read, step, enter, if_neg hc, Option.bind_some,
      Option.map_id']

theorem read_flatMap (w s rest : List α) :
    G.read (.inside w) (s.flatMap G.double ++ rest) = G.read (.inside (w ++ s)) rest := by
  induction s generalizing w with
  | nil => simp
  | cons c s ih =>
    rw [List.flatMap_cons, List.append_assoc, read_double, ih, List.append_assoc,
      List.singleton_append]

/-- The quote that ends a word. -/
theorem read_quote (hw : G.word w = some t) (hrest : rest.head? ≠ some G.quote) :
    G.read (.inside w) (G.quote :: rest) = (G.read .outside rest).map fun ts ↦ t :: ts := by
  have hquote : G.quote ∈ G.doubled := List.mem_cons_self
  rw [read, step, enter, if_pos hquote]
  cases rest with
  | nil =>
    simp only [read, finish, if_true, hw, Option.map_some, Option.bind_some, List.nil_append]
  | cons c rest =>
    have hc : c ≠ G.quote := fun h ↦ hrest (congrArg some h)
    simp only [read, step, leave, if_neg hc, if_true, hw, Option.bind_some, Option.map_map]
    cases G.outside c with
    | none => rfl
    | some us =>
      simp only [Option.map_some, Option.bind_some, Function.comp_apply, List.nil_append]
      cases G.read .outside rest <;> rfl

/-- A quoted word is read back as the word. -/
theorem read_quoted (hw : G.word w = some t) (hrest : rest.head? ≠ some G.quote) :
    G.read .outside (G.quoted w ++ rest) = (G.read .outside rest).map fun ts ↦ t :: ts := by
  rw [quoted, List.append_assoc, List.cons_append, read, step, leave, if_pos rfl]
  simp only [Option.bind_some, List.nil_append, Option.map_id']
  rw [read_flatMap, List.nil_append, List.singleton_append, read_quote hw hrest]

/-- Quoted words with a separator between them are read back in order. -/
theorem read_intercalate {sep : List α} {f : List α → τ} {ws : List (List α)}
    (hsep : ∀ rest, G.read .outside (sep ++ rest) = (G.read .outside rest).map fun us ↦ ts ++ us)
    (hhead : ∃ c, sep.head? = some c ∧ c ≠ G.quote) (hws : ∀ w ∈ ws, G.word w = some (f w)) :
    G.read .outside (sep.intercalate (ws.map G.quoted)) =
      some (ts.intercalate (ws.map fun w ↦ [f w])) := by
  induction ws with
  | nil => rfl
  | cons w ws ih =>
    have hw : G.word w = some (f w) := hws w List.mem_cons_self
    have ih := ih fun w hw ↦ hws w (List.mem_cons_of_mem _ hw)
    cases ws with
    | nil =>
      have hend : G.read .outside (G.quoted w ++ []) = (G.read .outside []).map fun ts ↦ f w :: ts :=
        read_quoted hw nofun
      simpa using hend
    | cons w' ws =>
      obtain ⟨c, hhead, hc⟩ := hhead
      simp only [List.map_cons, List.intercalate_cons_cons] at ih ⊢
      rw [List.append_assoc, read_quoted hw, hsep, ih]
      · rfl
      · rw [List.head?_append, hhead]
        exact fun h ↦ hc (Option.some.inj h)

end Quoting

end Haki.Data
