import Mathlib.Data.List.TakeWhile
import Mathlib.Tactic.Common

/-!
# Backtracking patterns

Patterns over an arbitrary alphabet with classes, greedy repetition of a class,
alternatives that are tried in order, captured groups, and tests of what stands
on both sides of a place (anchors, word boundaries).  A pattern is run into the
list of its successes, the one that a backtracking matcher returns first.

`Pattern.Reads` says which words a pattern reads and what it captures from them,
without the tests; every success reads such a word (`mem_run`), and so does
every match in a text (`mem_findAll`).
-/

namespace Haki.Data

universe u

/-- What was captured, the latest first. -/
abbrev Groups (α : Type u) := List (ℕ × List α)

/-- The text of a group, empty if it was not captured. -/
def Groups.text {α : Type u} (gs : Groups α) (n : ℕ) : List α := (gs.lookup n).getD []

inductive Pattern (α : Type u) where
  /-- Nothing, where the neighbours are right. -/
  | test (p : Option α → Option α → Bool)
  | one (p : α → Bool)
  /-- At least `least` and at most `most` of a class, as many as possible. -/
  | many (p : α → Bool) (least : ℕ) (most : Option ℕ)
  | seq (a b : Pattern α)
  | alt (a b : Pattern α)
  | opt (a : Pattern α)
  | group (n : ℕ) (a : Pattern α)

/-- A place in a text: what is before it, the nearest first, what is after it, and what was
captured on the way. -/
structure Cursor (α : Type u) where
  before : List α
  after : List α
  groups : Groups α

namespace Cursor

variable {α : Type u}

/-- The place so many characters on. -/
def advance (c : Cursor α) (n : ℕ) : Cursor α :=
  ⟨(c.after.take n).reverse ++ c.before, c.after.drop n, c.groups⟩

/-- What is between a place and a later one. -/
def upTo (c d : Cursor α) : List α := c.after.take (c.after.length - d.after.length)

/-- From one place to the other is the word, and this was captured from it. -/
structure Leads (c d : Cursor α) (w : List α) (gs : Groups α) : Prop where
  before : d.before = w.reverse ++ c.before
  after : c.after = w ++ d.after
  groups : d.groups = gs ++ c.groups

variable {c d e : Cursor α} {w v : List α} {gs hs : Groups α}

theorem Leads.refl (c : Cursor α) : Leads c c [] [] := ⟨rfl, rfl, rfl⟩

theorem Leads.trans (h : Leads c d w gs) (h' : Leads d e v hs) : Leads c e (w ++ v) (hs ++ gs) where
  before := by rw [h'.before, h.before, List.reverse_append, List.append_assoc]
  after := by rw [h.after, h'.after, List.append_assoc]
  groups := by rw [h'.groups, h.groups, List.append_assoc]

theorem leads_advance (c : Cursor α) (n : ℕ) : Leads c (c.advance n) (c.after.take n) [] :=
  ⟨rfl, (List.take_append_drop n c.after).symm, rfl⟩

theorem Leads.upTo (h : Leads c d w gs) : c.upTo d = w := by
  rw [Cursor.upTo, h.after, List.length_append, Nat.add_sub_cancel, List.take_left]

end Cursor

namespace Pattern

variable {α : Type u}

/-- Nothing. -/
def empty : Pattern α := test fun _ _ ↦ true

/-- No word. -/
def never : Pattern α := test fun _ _ ↦ false

/-- All of these, in order. -/
def chain (as : List (Pattern α)) : Pattern α := as.foldr seq empty

/-- One of each class, in order. -/
def word (ps : List (α → Bool)) : Pattern α := chain (ps.map one)

/-- The first of these that matches. -/
def anyOf (as : List (Pattern α)) : Pattern α := as.foldr alt never

/-- How many of a class a greedy repetition takes: as many as possible first. -/
def lengths (p : α → Bool) (least : ℕ) (most : Option ℕ) (text : List α) : List ℕ :=
  let run := (text.takeWhile p).length
  ((List.range (most.elim run (min run) + 1)).filter (least ≤ ·)).reverse

/-- The successes of a pattern at a place, in the order in which backtracking finds them. -/
def run : Pattern α → Cursor α → List (Cursor α)
  | test p, c => if p c.before.head? c.after.head? then [c] else []
  | one p, c =>
    match c.after with
    | [] => []
    | x :: _ => if p x then [c.advance 1] else []
  | many p least most, c => (lengths p least most c.after).map c.advance
  | seq a b, c => (a.run c).flatMap b.run
  | alt a b, c => a.run c ++ b.run c
  | opt a, c => a.run c ++ [c]
  | group n a, c => (a.run c).map fun d ↦ { d with groups := (n, c.upTo d) :: d.groups }

/-- What a pattern captures when it matches at the start of a text. -/
def matchStart (a : Pattern α) (text : List α) : Option (Groups α) :=
  (a.run ⟨[], text, []⟩).head?.map Cursor.groups

/-- The matches from a place on, after `skip` characters that belong to the last one.  A match has
at least one character. -/
def findFrom (a : Pattern α) : List α → ℕ → List α → List (Groups α)
  | _, _, [] => []
  | before, skip + 1, x :: rest => a.findFrom (x :: before) skip rest
  | before, 0, x :: rest =>
    match (a.run ⟨before, x :: rest, []⟩).head? with
    | none => a.findFrom (x :: before) 0 rest
    | some d => d.groups :: a.findFrom (x :: before) (rest.length - d.after.length) rest

/-- The matches in a text, from left to right and without overlaps. -/
def findAll (a : Pattern α) (text : List α) : List (Groups α) := a.findFrom [] 0 text

/-! ## The words of a pattern -/

/-- The words a pattern reads, and what it captures from them. -/
inductive Reads : Pattern α → List α → Groups α → Prop
  | test {p x y} (hp : p x y) : Reads (test p) [] []
  | one {p x} (hx : p x) : Reads (one p) [x] []
  | many {p least most w} (hw : ∀ x ∈ w, p x) (hleast : least ≤ w.length)
    (hmost : ∀ m ∈ most, w.length ≤ m) : Reads (many p least most) w []
  | seq {a b w v gs hs} (ha : Reads a w gs) (hb : Reads b v hs) :
    Reads (seq a b) (w ++ v) (hs ++ gs)
  | left {a b w gs} (ha : Reads a w gs) : Reads (alt a b) w gs
  | right {a b w gs} (hb : Reads b w gs) : Reads (alt a b) w gs
  | some {a w gs} (ha : Reads a w gs) : Reads (opt a) w gs
  | none (a) : Reads (opt a) [] []
  | group {n a w gs} (ha : Reads a w gs) : Reads (group n a) w ((n, w) :: gs)

variable {a : Pattern α} {c d : Cursor α} {text : List α} {gs : Groups α}

theorem mem_lengths {p : α → Bool} {least n : ℕ} {most : Option ℕ}
    (h : n ∈ lengths p least most text) :
    (∀ x ∈ text.take n, p x) ∧ least ≤ (text.take n).length ∧
      ∀ m ∈ most, (text.take n).length ≤ m := by
  obtain ⟨hn, hleast⟩ := List.mem_filter.mp (List.mem_reverse.mp h)
  have hrun : n ≤ (text.takeWhile p).length := by
    cases most <;> simp at hn <;> omega
  have htaken : text.takeWhile p = text.take (text.takeWhile p).length :=
    List.prefix_iff_eq_take.mp (List.takeWhile_prefix p)
  have htake : text.take n = (text.takeWhile p).take n := by
    rw [htaken, List.take_take, Nat.min_eq_left hrun]
  have hlength : (text.take n).length = n := by
    rw [htake, List.length_take, Nat.min_eq_left hrun]
  refine ⟨fun x hx ↦ ?_, ?_, ?_⟩
  · rw [htake] at hx
    exact List.mem_takeWhile_imp (List.mem_of_mem_take hx)
  · rw [hlength]
    exact of_decide_eq_true hleast
  · rintro m rfl
    rw [hlength]
    simp at hn
    omega

/-- Every success reads a word of the pattern. -/
theorem mem_run (h : d ∈ a.run c) : ∃ w gs, a.Reads w gs ∧ c.Leads d w gs := by
  induction a generalizing c d with
  | test p =>
    rw [run] at h
    split at h
    next hp =>
      rw [List.mem_singleton.mp h]
      exact ⟨[], [], .test hp, .refl c⟩
    next => exact absurd h List.not_mem_nil
  | one p =>
    rw [run] at h
    split at h
    next => exact absurd h List.not_mem_nil
    next x rest hafter =>
      split at h
      next hx =>
        rw [List.mem_singleton.mp h]
        have := c.leads_advance 1
        rw [hafter] at this
        exact ⟨[x], [], .one hx, this⟩
      next => exact absurd h List.not_mem_nil
  | many p least most =>
    obtain ⟨n, hn, rfl⟩ := List.mem_map.mp h
    obtain ⟨hp, hleast, hmost⟩ := mem_lengths hn
    exact ⟨_, [], .many hp hleast hmost, c.leads_advance n⟩
  | seq a b iha ihb =>
    obtain ⟨e, he, hd⟩ := List.mem_flatMap.mp h
    obtain ⟨w, gs, ha, hce⟩ := iha he
    obtain ⟨v, hs, hb, hed⟩ := ihb hd
    exact ⟨w ++ v, hs ++ gs, .seq ha hb, hce.trans hed⟩
  | alt a b iha ihb =>
    rcases List.mem_append.mp h with h | h
    · obtain ⟨w, gs, ha, hcd⟩ := iha h
      exact ⟨w, gs, .left ha, hcd⟩
    · obtain ⟨w, gs, hb, hcd⟩ := ihb h
      exact ⟨w, gs, .right hb, hcd⟩
  | opt a iha =>
    rcases List.mem_append.mp h with h | h
    · obtain ⟨w, gs, ha, hcd⟩ := iha h
      exact ⟨w, gs, .some ha, hcd⟩
    · rw [List.mem_singleton.mp h]
      exact ⟨[], [], .none a, .refl c⟩
  | group n a iha =>
    obtain ⟨e, he, rfl⟩ := List.mem_map.mp h
    obtain ⟨w, gs, ha, hce⟩ := iha he
    refine ⟨w, (n, w) :: gs, .group ha, hce.before, hce.after, ?_⟩
    rw [hce.upTo, hce.groups, List.cons_append]

theorem mem_findFrom {before : List α} {skip : ℕ} (h : gs ∈ a.findFrom before skip text) :
    ∃ w, a.Reads w gs := by
  induction text generalizing before skip with
  | nil => exact absurd h (by rw [findFrom]; exact List.not_mem_nil)
  | cons x rest ih =>
    cases skip with
    | succ skip => exact ih h
    | zero =>
      rw [findFrom] at h
      split at h
      next => exact ih h
      next d hd =>
        rcases List.mem_cons.mp h with rfl | h
        · obtain ⟨w, gs, ha, hlead⟩ := mem_run (List.mem_of_mem_head? hd)
          rw [hlead.groups, List.append_nil]
          exact ⟨w, ha⟩
        · exact ih h

/-- Every match reads a word of the pattern. -/
theorem mem_findAll (h : gs ∈ a.findAll text) : ∃ w, a.Reads w gs := mem_findFrom h

/-! ## Derived patterns -/

/-- A word of one of some patterns. -/
theorem Reads.of_anyOf {as : List (Pattern α)} {w : List α} (h : (anyOf as).Reads w gs) :
    ∃ a ∈ as, a.Reads w gs := by
  induction as with
  | nil =>
    cases h with
    | test hp => cases hp
  | cons a as ih =>
    cases h with
    | left ha => exact ⟨a, List.mem_cons_self, ha⟩
    | right hb =>
      obtain ⟨b, hb, hread⟩ := ih hb
      exact ⟨b, List.mem_cons_of_mem a hb, hread⟩

/-- A word of one of each class. -/
theorem Reads.of_word {ps : List (α → Bool)} {w : List α} (h : (word ps).Reads w gs) :
    List.Forall₂ (fun p x ↦ p x = true) ps w ∧ gs = [] := by
  induction ps generalizing w gs with
  | nil =>
    cases h
    exact ⟨.nil, rfl⟩
  | cons p ps ih =>
    cases h with
    | seq hp hps =>
      cases hp with
      | one hx =>
        obtain ⟨hall, rfl⟩ := ih hps
        exact ⟨.cons hx hall, rfl⟩

end Pattern

end Haki.Data
