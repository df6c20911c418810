import Haki.Context.Servable

/-!
# Budgets that a fact fills

Packing is greedy, and from the second one on episodes share half of the
budget.  A fact of the pool is left out under a small budget and packed under a
large one.  Somewhere in between, one more token lets it in: a fact can only
enter because its line fits, never because an episode was let in or kept out,
so under that budget the line fills what was left to the last token
(`exists_filled`).
-/

namespace Haki

open Data Filter

namespace Packing

variable {call : PackingCall} {p q : Packing} {b : Nat} {row : FactRow} {rows : List PoolRow}

/-! ## Steps of the loop -/

/-- At every step of the packing loop, the packet before the step and the row meet a condition. -/
def RunMeets (call : PackingCall) (C : Packing → PoolRow → Prop) (p : Packing)
    (rows : List PoolRow) : Prop :=
  ∀ before row after, rows = before ++ row :: after → C (before.foldl (packRow call) p) row

theorem runMeets_nil {C : Packing → PoolRow → Prop} : RunMeets call C p [] := by
  intro before row after heq
  cases before <;> cases heq

theorem runMeets_cons {C : Packing → PoolRow → Prop} {row : PoolRow} {rows : List PoolRow} :
    RunMeets call C p (row :: rows) ↔ C p row ∧ RunMeets call C (p.packRow call row) rows := by
  constructor
  · intro h
    refine ⟨h [] row rows rfl, fun before other after heq ↦ ?_⟩
    exact h (row :: before) other after (congrArg (List.cons row) heq)
  · rintro ⟨hrow, hrows⟩ before other after heq
    cases before with
    | nil =>
      obtain ⟨rfl, rfl⟩ := List.cons.inj heq
      exact hrow
    | cons first before =>
      obtain ⟨rfl, rfl⟩ := List.cons.inj heq
      exact hrows before other after rfl

/-- The set a row is contested in. -/
def contestedIn (call : PackingCall) : PoolRow → Option ConflictSet
  | .fact row => call.contestedConflict row.fact.id
  | .episode _ => none

/-- The line of a fact. -/
def lineOf (call : PackingCall) (p : Packing) (row : Fact) : String :=
  (p.printFact call row (call.contestedConflict row.id)).line

/-- A fact whose turn it is fits. -/
def FitsFact (call : PackingCall) (p : Packing) : PoolRow → Prop
  | .fact row => p.Fits call (p.lineOf call row.fact)
  | .episode _ => True

/-- Every fact of the list is packed when its turn comes. -/
def PacksFacts (call : PackingCall) (p : Packing) (rows : List PoolRow) : Prop :=
  RunMeets call (FitsFact call) p rows

theorem estimateTokens_pos (text : String) : 0 < estimateTokens text := Nat.le_max_left 1 _

theorem lineOf_eq (h : contestedIn call (.fact row) = none) (p : Packing) :
    p.lineOf call row.fact = (p.printFact call row.fact none).line := by
  replace h : call.contestedConflict row.fact.id = none := h
  rw [lineOf, h]

/-- A fact without contradiction that fits is packed alone. -/
theorem packRow_fact (hfits : p.FitsFact call (.fact row))
    (hnone : contestedIn call (.fact row) = none) :
    p.packRow call (.fact row) = p.addFact (p.printFact call row.fact none) .topScore := by
  replace hnone : call.contestedConflict row.fact.id = none := hnone
  rcases packFact_cases call p row.fact with ⟨hover, -⟩ | ⟨-, -, heq⟩ | ⟨s, hs, -⟩
  · exact absurd hfits hover
  · exact heq
  · cases hnone.symm.trans hs

/-- The packet never becomes cheaper. -/
theorem tokenCount_le_foldl (call : PackingCall) (p : Packing) (rows : List PoolRow) :
    p.tokenCount ≤ (rows.foldl (packRow call) p).tokenCount := by
  have hkept : KeptByMoves call rows fun q ↦ p.tokenCount ≤ q.tokenCount := by
    constructor
    case skip => exact fun _ _ _ _ _ h ↦ h
    case fact => exact fun _ _ _ _ _ h ↦ h.trans (Nat.le_add_right _ _)
    case contested => exact fun _ _ _ _ _ _ h ↦ h.trans (Nat.le_add_right _ _)
    case sibling => exact fun _ _ _ _ _ _ _ _ _ h ↦ h.trans (Nat.le_add_right _ _)
    case episode => exact fun _ _ _ _ _ h ↦ h.trans (Nat.le_add_right _ _)
  exact List.foldlRecOn (motive := fun q : Packing ↦ p.tokenCount ≤ q.tokenCount) rows _ le_rfl
    fun q hq row hrow ↦ hkept.packRow hq hrow

/-- A packet without room takes no fact. -/
theorem not_packsFacts_of_full (hfull : call.budgetTokens ≤ p.tokenCount) :
    ¬ PacksFacts call p (rows ++ [.fact row]) := by
  intro h
  have hfits : (rows.foldl (packRow call) p).Fits call _ := h rows (.fact row) [] rfl
  have hle := tokenCount_le_foldl call p rows
  have hpos := estimateTokens_pos ((rows.foldl (packRow call) p).lineOf call row.fact)
  unfold Fits at hfits
  omega

/-- Under a large budget, every fact is packed when its turn comes. -/
theorem eventually_packsFacts (hkeyed : call.KeyedRows) (p : Packing) (rows : List PoolRow) :
    ∀ᶠ b in atTop, PacksFacts (call.withBudget b) p rows := by
  induction rows generalizing p with
  | nil => exact .of_forall fun b ↦ runMeets_nil
  | cons row rows ih =>
    obtain ⟨q, hq, -⟩ := eventually_packRow hkeyed p row
    have hfits : ∀ᶠ b in atTop, FitsFact (call.withBudget b) p row := by
      cases row with
      | episode row => exact .of_forall fun b ↦ trivial
      | fact row => exact eventually_ge_atTop (p.tokenCount + estimateTokens (p.lineOf call row.fact))
    refine (hq.and (hfits.and (ih q))).mono fun b ⟨hq, hfits, hrows⟩ ↦ ?_
    exact runMeets_cons.mpr ⟨hfits, hq ▸ hrows⟩

/-! ## One more token -/

/-- Two packets take the same items. -/
structure Alike (p q : Packing) : Prop where
  facts : p.facts.length = q.facts.length
  episodes : p.episodes.length = q.episodes.length
  tokens : p.tokenCount = q.tokenCount
  episodeTokens : p.episodeTokenCount = q.episodeTokenCount
  packed : p.episodesPacked = q.episodesPacked

/-- The packet `q` has the same facts as `p`, and its episodes use up half of the larger budget
while those of `p` leave room in half of the smaller one. -/
structure Overtaken (b : Nat) (p q : Packing) : Prop where
  facts : p.facts.length = q.facts.length
  tokens : p.tokenCount + q.episodeTokenCount = q.tokenCount + p.episodeTokenCount
  below : 2 * p.episodeTokenCount ≤ b
  above : b < 2 * q.episodeTokenCount
  left : 0 < p.episodesPacked
  right : 0 < q.episodesPacked

/-- The next fact is printed the same on top of as many facts. -/
theorem printFact_congr (h : p.facts.length = q.facts.length) (call : PackingCall) (row : Fact)
    (conflict : Option ConflictSet) :
    p.printFact call row conflict = q.printFact call row conflict := by
  rw [printFact, printFact, h]

theorem lineOf_congr (h : p.facts.length = q.facts.length) (call : PackingCall) (row : Fact) :
    p.lineOf call row = q.lineOf call row := by
  rw [lineOf, lineOf, printFact_congr h]

theorem printEpisode_congr (h : p.episodes.length = q.episodes.length) (call : PackingCall)
    (row : EpisodeRow) : p.printEpisode call row = q.printEpisode call row := by
  rw [printEpisode, printEpisode, h]

theorem length_addFact (p : Packing) (printed : Printed PacketFact) (reason : ReasonCode) :
    (p.addFact printed reason).facts.length = p.facts.length + 1 := by
  rw [addFact, List.length_append, List.length_singleton]

namespace Alike

theorem note (h : Alike p q) (item item' : ItemId) (action action' : DecisionAction)
    (reason reason' : ReasonCode) :
    Alike (p.note item action reason) (q.note item' action' reason') := { h with }

theorem addFact (h : Alike p q) (call : PackingCall) (row : Fact) (conflict : Option ConflictSet)
    (reason : ReasonCode) : Alike (p.addFact (p.printFact call row conflict) reason)
      (q.addFact (q.printFact call row conflict) reason) where
  facts := by rw [length_addFact, length_addFact, h.facts]
  episodes := h.episodes
  tokens := by
    show p.tokenCount + _ = q.tokenCount + _
    rw [h.tokens, printFact_congr h.facts]
  episodeTokens := h.episodeTokens
  packed := h.packed

theorem addEpisode (h : Alike p q) (call : PackingCall) (row : EpisodeRow) (id : ChunkId) :
    Alike (p.addEpisode (p.printEpisode call row) id)
      (q.addEpisode (q.printEpisode call row) id) where
  facts := h.facts
  episodes := by
    show (p.episodes ++ [_]).length = (q.episodes ++ [_]).length
    rw [List.length_append, List.length_append, h.episodes]
    rfl
  tokens := by
    show p.tokenCount + _ = q.tokenCount + _
    rw [h.tokens, printEpisode_congr h.episodes]
  episodeTokens := by
    show p.episodeTokenCount + _ = q.episodeTokenCount + _
    rw [h.episodeTokens, printEpisode_congr h.episodes]
  packed := congrArg (· + 1) h.packed

end Alike

namespace Overtaken

/-- What fits in the packet with more episodes fits in the other. -/
theorem fits (h : Overtaken b p q) (hfits : q.FitsFact (call.withBudget (b + 1)) (.fact row)) :
    p.FitsFact (call.withBudget b) (.fact row) := by
  have htokens := h.tokens
  have hbelow := h.below
  have habove := h.above
  have hline := lineOf_congr h.facts (call.withBudget b) row.fact
  have hfits : q.tokenCount + estimateTokens (q.lineOf (call.withBudget b) row.fact) ≤ b + 1 := hfits
  show p.tokenCount + estimateTokens (p.lineOf (call.withBudget b) row.fact) ≤ b
  rw [hline]
  omega

/-- A fact both packets take. -/
theorem addFact (h : Overtaken b p q) (call : PackingCall) (row : Fact)
    (conflict : Option ConflictSet) (reason : ReasonCode) :
    Overtaken b (p.addFact (p.printFact call row conflict) reason)
      (q.addFact (q.printFact call row conflict) reason) where
  facts := by rw [length_addFact, length_addFact, h.facts]
  tokens := by
    have htokens := h.tokens
    show p.tokenCount + _ + q.episodeTokenCount = q.tokenCount + _ + p.episodeTokenCount
    rw [printFact_congr h.facts]
    omega
  below := h.below
  above := h.above
  left := h.left
  right := h.right

/-- The packet with more episodes takes no other. -/
theorem packEpisode (h : Overtaken b p q) (call : PackingCall) (row : EpisodeRow) :
    Overtaken b (p.packEpisode (call.withBudget b) row)
      (q.packEpisode (call.withBudget (b + 1)) row) := by
  have habove := h.above
  rcases packEpisode_cases (call.withBudget (b + 1)) q row with ⟨_, -, hq⟩ | ⟨hceiling, -, -⟩
  · rcases packEpisode_cases (call.withBudget b) p row with ⟨_, -, hp⟩ | ⟨hceiling, -, hp⟩
    · rw [hp, hq]
      exact { h with }
    · have hroom : 2 * (p.episodeTokenCount +
          estimateTokens (p.printEpisode (call.withBudget b) row).line) ≤ b :=
        not_lt.mp fun hover ↦ hceiling ⟨h.left, hover⟩
      have htokens := h.tokens
      rw [hp, hq]
      refine ⟨h.facts, ?_, hroom, habove, Nat.succ_pos _, h.right⟩
      simp only [addEpisode, note]
      omega
  · have hpos := estimateTokens_pos (q.printEpisode (call.withBudget (b + 1)) row).line
    refine absurd ⟨h.right, ?_⟩ hceiling
    show b + 1 < _
    omega

/-- The packet with fewer episodes takes every fact the other takes. -/
theorem packsFacts (h : Overtaken b p q) (hnone : ∀ other ∈ rows, contestedIn call other = none)
    (hq : PacksFacts (call.withBudget (b + 1)) q (rows ++ [.fact row])) :
    PacksFacts (call.withBudget b) p (rows ++ [.fact row]) := by
  induction rows generalizing p q with
  | nil => exact runMeets_cons.mpr ⟨h.fits (runMeets_cons.mp hq).1, runMeets_nil⟩
  | cons other rows ih =>
    obtain ⟨hother, hrows⟩ := List.forall_mem_cons.mp hnone
    obtain ⟨hfits, hrest⟩ := runMeets_cons.mp hq
    cases other with
    | episode other =>
      exact runMeets_cons.mpr ⟨trivial, ih (h.packEpisode call other) hrows hrest⟩
    | fact other =>
      have hfits' := h.fits hfits
      refine runMeets_cons.mpr ⟨hfits', ?_⟩
      rw [packRow_fact hfits hother] at hrest
      rw [packRow_fact hfits' hother]
      exact ih (h.addFact call other.fact none .topScore) hrows hrest

end Overtaken

/-- One more token lets an episode in, because its line fills the budget or because the episodes
fill half of it. -/
theorem Alike.packEpisode_cases (h : Alike p q) (call : PackingCall) (row : EpisodeRow) :
    Alike (p.packEpisode (call.withBudget b) row) (q.packEpisode (call.withBudget (b + 1)) row) ∨
    (call.withBudget (b + 1)).budgetTokens ≤
      (q.packEpisode (call.withBudget (b + 1)) row).tokenCount ∨
    Overtaken b (p.packEpisode (call.withBudget b) row)
      (q.packEpisode (call.withBudget (b + 1)) row) := by
  have hline := printEpisode_congr h.episodes (call.withBudget b) row
  have htokens := h.tokens
  have hepisodeTokens := h.episodeTokens
  have hpacked := h.packed
  rcases Packing.packEpisode_cases (call.withBudget b) p row with ⟨_, hout, hp⟩ | ⟨hin, hfits, hp⟩
  · rcases Packing.packEpisode_cases (call.withBudget (b + 1)) q row with
      ⟨_, -, hq⟩ | ⟨hin, hfits, hq⟩
    · rw [hp, hq]
      exact .inl (h.note ..)
    · rcases hout with ⟨hseveral, hover⟩ | hover
      · refine .inr (.inr ?_)
        rw [hp, hq]
        have hfills : 2 * (q.episodeTokenCount +
            estimateTokens (q.printEpisode (call.withBudget b) row).line) ≤ b + 1 :=
          not_lt.mp fun hover ↦ hin ⟨hpacked ▸ hseveral, hover⟩
        have hpos := estimateTokens_pos (q.printEpisode (call.withBudget b) row).line
        rw [hline] at hover
        refine ⟨h.facts, ?_, ?_, ?_, hseveral, Nat.succ_pos _⟩
        · show p.tokenCount + (q.episodeTokenCount + _) = q.tokenCount + _ + p.episodeTokenCount
          omega
        · show 2 * p.episodeTokenCount ≤ b
          omega
        · show b < 2 * (q.episodeTokenCount + _)
          rw [← hepisodeTokens]
          exact hover
      · refine .inr (.inl ?_)
        rw [hq]
        rw [hline, Fits, htokens] at hover
        exact not_le.mp hover
  · rcases Packing.packEpisode_cases (call.withBudget (b + 1)) q row with ⟨_, hout, -⟩ | ⟨-, -, hq⟩
    · -- What the larger budget keeps out, the smaller one keeps out.
      rcases hout with ⟨hseveral, hover⟩ | hover
      · refine absurd ⟨hpacked ▸ hseveral, ?_⟩ hin
        rw [hline, hepisodeTokens]
        exact (Nat.lt_succ_self b).trans hover
      · refine absurd (Nat.le_succ_of_le ?_) hover
        rw [hline, Fits, htokens] at hfits
        exact hfits
    · rw [hp, hq]
      exact .inl (h.addEpisode call row row.chunk.id)

/-- **One more token.**  If one more token is what lets the last of some facts in, its line fills the
budget. -/
theorem filled_of_packsFacts (h : Alike p q)
    (hnone : ∀ other ∈ rows, contestedIn call other = none)
    (hless : ¬ PacksFacts (call.withBudget b) p (rows ++ [.fact row]))
    (hmore : PacksFacts (call.withBudget (b + 1)) q (rows ++ [.fact row])) :
    let packed := rows.foldl (packRow (call.withBudget (b + 1))) q
    packed.tokenCount + estimateTokens (packed.lineOf call row.fact) = b + 1 := by
  induction rows generalizing p q with
  | nil =>
    have hfits : q.tokenCount + estimateTokens (q.lineOf call row.fact) ≤ b + 1 :=
      (runMeets_cons.mp hmore).1
    have hover : ¬ p.tokenCount + estimateTokens (p.lineOf call row.fact) ≤ b := fun hfits ↦
      hless (runMeets_cons.mpr ⟨hfits, runMeets_nil⟩)
    rw [h.tokens, lineOf_congr h.facts] at hover
    show q.tokenCount + estimateTokens (q.lineOf call row.fact) = b + 1
    omega
  | cons other rows ih =>
    obtain ⟨hother, hrows⟩ := List.forall_mem_cons.mp hnone
    obtain ⟨hfits, hrest⟩ := runMeets_cons.mp hmore
    rw [List.foldl_cons]
    cases other with
    | fact other =>
      by_cases hfits' : p.FitsFact (call.withBudget b) (.fact other)
      · rw [packRow_fact hfits hother] at hrest ⊢
        refine ih (h.addFact call other.fact none .topScore) hrows (fun hp ↦ hless ?_) hrest
        refine runMeets_cons.mpr ⟨hfits', ?_⟩
        rwa [packRow_fact hfits' hother]
      · -- This fact fills the budget, and leaves no room for the last one.
        have hover : ¬ p.tokenCount + estimateTokens (p.lineOf call other.fact) ≤ b := hfits'
        rw [lineOf_congr h.facts, h.tokens, lineOf_eq hother] at hover
        rw [packRow_fact hfits hother] at hrest
        refine absurd hrest (not_packsFacts_of_full ?_)
        show b + 1 ≤ q.tokenCount + _
        exact not_le.mp hover
    | episode other =>
      have hless' : ¬ PacksFacts (call.withBudget b) (p.packEpisode (call.withBudget b) other)
          (rows ++ [.fact row]) := fun hp ↦ hless (runMeets_cons.mpr ⟨trivial, hp⟩)
      rw [packRow] at hrest ⊢
      rcases h.packEpisode_cases (b := b) call other with halike | hfull | hovertaken
      · exact ih halike hrows hless' hrest
      · exact absurd hrest (not_packsFacts_of_full hfull)
      · exact absurd (hovertaken.packsFacts hrows hrest) hless'

/-- **Filled budgets.**  Some budget lets in every fact of the list, and is filled by the last. -/
theorem exists_filled (row : FactRow) (hkeyed : call.KeyedRows) (p : Packing)
    (hnone : ∀ other ∈ rows, contestedIn call other = none) :
    ∃ b, 0 < b ∧ PacksFacts (call.withBudget b) p (rows ++ [.fact row]) ∧
      let q := rows.foldl (packRow (call.withBudget b)) p
      q.tokenCount + estimateTokens (q.lineOf call row.fact) = b := by
  have hzero : ¬ PacksFacts (call.withBudget 0) p (rows ++ [.fact row]) :=
    not_packsFacts_of_full (Nat.zero_le _)
  obtain ⟨n, hn⟩ := (eventually_packsFacts hkeyed p (rows ++ [.fact row])).exists
  obtain ⟨b, hless, hmore⟩ : ∃ b, ¬ PacksFacts (call.withBudget b) p (rows ++ [.fact row]) ∧
      PacksFacts (call.withBudget (b + 1)) p (rows ++ [.fact row]) := by
    by_contra hnever
    refine Nat.rec (motive := fun n ↦ ¬ PacksFacts (call.withBudget n) p (rows ++ [.fact row])) hzero
      (fun b hless hmore ↦ hnever ⟨b, hless, hmore⟩) n hn
  exact ⟨b + 1, Nat.succ_pos b, hmore, filled_of_packsFacts ⟨rfl, rfl, rfl, rfl, rfl⟩ hnone hless hmore⟩

end Packing

end Haki
