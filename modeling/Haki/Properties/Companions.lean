import Haki.Context.Filled
import Haki.Properties.OpenSets
import Haki.Sample

/-!
# Companions of a contested fact

The line of a contested fact says that the conflicting value is shown with the
same conflict id.  It is printed and charged before the other members of the
set are looked at, so it is true only when one of them is stored, is not
forgotten and has a line that fits in what is left of the budget.  A packet is
made of blocks, one for each row of the pool; in a reachable ledger no two
blocks share a conflict id, so a packet is right exactly when each block is.
Under some budget the line of the first contested fact leaves no room for
another, so a ledger is safe under every budget only when nothing that passes
the gate is contested (`contestedLines_iff`).
-/

namespace Haki

open Data Control Filter

/-! ## Shared conflict ids -/

/-- Every fact with a conflict id shares it with another fact. -/
def ConflictsShared (facts : List (Printed PacketFact)) : Prop :=
  ∀ printed ∈ facts, ∀ c ∈ printed.item.conflictId,
    ∃ other ∈ facts, other.item.id ≠ printed.item.id ∧ other.item.conflictId = some c

instance (facts : List (Printed PacketFact)) : Decidable (ConflictsShared facts) :=
  inferInstanceAs (Decidable (∀ printed ∈ facts, ∀ c ∈ printed.item.conflictId,
    ∃ other ∈ facts, other.item.id ≠ printed.item.id ∧ other.item.conflictId = some c))

section ConflictsShared

variable {facts facts' : List (Printed PacketFact)} {printed : Printed PacketFact} {c : ConflictId}

theorem conflictsShared_of_forall_none (h : ∀ printed ∈ facts, printed.item.conflictId = none) :
    ConflictsShared facts := by
  intro printed hprinted c hc
  rw [h printed hprinted] at hc
  cases hc

/-- Two blocks without a common conflict id are judged one by one. -/
theorem conflictsShared_append (h : ∀ printed ∈ facts, ∀ c ∈ printed.item.conflictId,
      ∀ other ∈ facts', other.item.conflictId ≠ some c) :
    ConflictsShared (facts ++ facts') ↔ ConflictsShared facts ∧ ConflictsShared facts' := by
  constructor
  · refine fun hall ↦ ⟨fun printed hprinted c hc ↦ ?_, fun printed hprinted c hc ↦ ?_⟩
    · obtain ⟨other, hother, hne, hshared⟩ := hall printed (List.mem_append_left _ hprinted) c hc
      rcases List.mem_append.mp hother with hother | hother
      · exact ⟨other, hother, hne, hshared⟩
      · exact absurd hshared (h printed hprinted c hc other hother)
    · obtain ⟨other, hother, hne, hshared⟩ := hall printed (List.mem_append_right _ hprinted) c hc
      rcases List.mem_append.mp hother with hother | hother
      · exact absurd hc (h other hother c hshared printed hprinted)
      · exact ⟨other, hother, hne, hshared⟩
  · rintro ⟨hleft, hright⟩ printed hprinted c hc
    rcases List.mem_append.mp hprinted with hprinted | hprinted
    · obtain ⟨other, hother, hshared⟩ := hleft printed hprinted c hc
      exact ⟨other, List.mem_append_left _ hother, hshared⟩
    · obtain ⟨other, hother, hshared⟩ := hright printed hprinted c hc
      exact ⟨other, List.mem_append_right _ hother, hshared⟩

/-- A block of one set is right when it has a second fact. -/
theorem conflictsShared_cons (hprinted : printed.item.conflictId = some c)
    (hfacts : ∀ other ∈ facts, other.item.conflictId = some c ∧ other.item.id ≠ printed.item.id) :
    ConflictsShared (printed :: facts) ↔ facts ≠ [] := by
  constructor
  · rintro h rfl
    obtain ⟨other, hother, hne, -⟩ := h printed List.mem_cons_self c hprinted
    exact hne (List.mem_singleton.mp hother ▸ rfl)
  · intro hne first hfirst d hd
    obtain ⟨second, hsecond⟩ := List.exists_mem_of_ne_nil facts hne
    rcases List.mem_cons.mp hfirst with rfl | hfirst
    · obtain rfl : c = d := Option.some.inj (hprinted.symm.trans hd)
      exact ⟨second, List.mem_cons_of_mem _ hsecond, (hfacts second hsecond).2,
        (hfacts second hsecond).1⟩
    · obtain rfl : c = d := Option.some.inj ((hfacts first hfirst).1.symm.trans hd)
      exact ⟨printed, List.mem_cons_self, (hfacts first hfirst).2.symm, hprinted⟩

end ConflictsShared

/-! ## What is packed on top of a packet -/

namespace Packing

variable {call : PackingCall} {p q r : Packing} {s : ConflictSet} {id : FactId}
  {added : List (Printed PacketFact)}

/-- The facts a packet has more than another. -/
structure Adds (p q : Packing) (added : List (Printed PacketFact)) : Prop where
  facts : q.facts = p.facts ++ added
  ids : q.packedFactIds = p.packedFactIds ++ added.map (·.item.id)

theorem Adds.nil (hfacts : q.facts = p.facts) (hids : q.packedFactIds = p.packedFactIds) :
    Adds p q [] :=
  ⟨hfacts.trans (List.append_nil _).symm, hids.trans (List.append_nil _).symm⟩

theorem Adds.cons {printed : Printed PacketFact} (reason : ReasonCode)
    (h : Adds (p.addFact printed reason) q added) : Adds p q (printed :: added) where
  facts := h.facts.trans (List.append_assoc _ _ _)
  ids := h.ids.trans (List.append_assoc _ _ _)

/-- A member of the set can be served with the packet: it is stored, it is not forgotten, and its
line fits. -/
def CanFollow (call : PackingCall) (p : Packing) (s : ConflictSet) (id : FactId) : Prop :=
  ∃ sibling ∈ call.contestedRow id, sibling.Served ∧
    p.Fits call (p.printFact call sibling (some s)).line

/-- A member is added when it is new and can be served; otherwise only decisions change. -/
theorem packSibling_adds (call : PackingCall) (s : ConflictSet) (p : Packing) (id : FactId) :
    (¬ (id ∉ p.packedFactIds ∧ p.CanFollow call s id) ∧
      ∃ decisions, p.packSibling call s id = { p with decisions := decisions }) ∨
    ∃ sibling, call.contestedRow id = some sibling ∧ id ∉ p.packedFactIds ∧
      p.CanFollow call s id ∧ p.packSibling call s id =
        p.addFact (p.printFact call sibling (some s)) .conflictDisputed := by
  rcases packSibling_cases call s p id with
    ⟨heq, hskip⟩ | ⟨sibling, -, hrow, hforgotten, heq⟩ | ⟨sibling, hhydrated, hover, heq⟩ |
    ⟨sibling, hhydrated, hfits, heq⟩
  · refine .inl ⟨?_, _, heq⟩
    rintro ⟨hnew, sibling, hrow, -⟩
    rcases hskip with hpacked | hnone
    · exact hnew hpacked
    · cases hnone.symm.trans hrow
  · refine .inl ⟨?_, _, heq⟩
    rintro ⟨-, other, hother, hserved, -⟩
    obtain rfl : sibling = other := Option.some.inj (hrow.symm.trans hother)
    exact hserved hforgotten
  · refine .inl ⟨?_, _, heq⟩
    rintro ⟨-, other, hother, -, hfits⟩
    obtain rfl : sibling = other := Option.some.inj (hhydrated.row.symm.trans hother)
    exact hover hfits
  · exact .inr ⟨sibling, hhydrated.row, hhydrated.new,
      ⟨sibling, hhydrated.row, hhydrated.served, hfits⟩, heq⟩

/-- What the members of a set add. -/
theorem packSiblings_adds (hkeyed : call.KeyedRows) (s : ConflictSet) (ids : List FactId)
    (p : Packing) :
    ∃ added, Adds p (ids.foldl (packSibling call s) p) added ∧
      (∀ printed ∈ added, printed.item.conflictId = some s.id ∧ printed.item.id ∈ ids ∧
        printed.item.id ∉ p.packedFactIds) ∧
      (added ≠ [] ↔ ∃ id ∈ ids, id ∉ p.packedFactIds ∧ p.CanFollow call s id) := by
  induction ids generalizing p with
  | nil => exact ⟨[], .nil rfl rfl, by rintro _ ⟨⟩, by simp⟩
  | cons id ids ih =>
    rw [List.foldl_cons]
    rcases packSibling_adds call s p id with
      ⟨hnot, decisions, heq⟩ | ⟨sibling, hrow, hnew, hfollows, heq⟩
    · rw [heq]
      obtain ⟨added, hadds, hadded, hiff⟩ := ih { p with decisions := decisions }
      refine ⟨added, ⟨hadds.facts, hadds.ids⟩, fun printed hprinted ↦ ?_, hiff.trans ?_⟩
      · obtain ⟨hmark, hid, hnew⟩ := hadded printed hprinted
        exact ⟨hmark, List.mem_cons_of_mem _ hid, hnew⟩
      · rw [List.exists_mem_cons_iff]
        exact (or_iff_right hnot).symm
    · have hid : (p.printFact call sibling (some s)).item.id = id := hkeyed id sibling hrow
      rw [heq]
      obtain ⟨added, hadds, hadded, -⟩ :=
        ih (p.addFact (p.printFact call sibling (some s)) .conflictDisputed)
      refine ⟨_ :: added, hadds.cons _, List.forall_mem_cons.mpr ⟨⟨rfl, ?_, ?_⟩,
        fun printed hprinted ↦ ?_⟩, iff_of_true (List.cons_ne_nil _ _)
          ⟨id, List.mem_cons_self, hnew, hfollows⟩⟩
      · exact List.mem_cons.mpr (.inl hid)
      · rwa [hid]
      · obtain ⟨hmark, hid, hnew⟩ := hadded printed hprinted
        exact ⟨hmark, List.mem_cons_of_mem _ hid, fun hpacked ↦
          hnew (List.mem_append_left _ hpacked)⟩

/-! ## Rows -/

/-- A contested fact that fits is followed by a member of its set. -/
def FindsCompanion (call : PackingCall) (p : Packing) : PoolRow → Prop
  | .fact row => ∀ s ∈ call.contestedConflict row.fact.id,
      p.Fits call (p.printFact call row.fact (some s)).line →
        ∃ id ∈ s.factIds, id ≠ row.fact.id ∧
          (p.addFact (p.printFact call row.fact (some s)) .conflictDisputed).CanFollow call s id
  | .episode _ => True

/-- The set a row is contested in has left no trace in the packet. -/
def Clear (call : PackingCall) (p : Packing) (row : PoolRow) : Prop :=
  ∀ s ∈ contestedIn call row, (∀ id ∈ s.factIds, id ∉ p.packedFactIds) ∧
    ∀ printed ∈ p.facts, printed.item.conflictId ≠ some s.id

/-- A fact a row may add: the row itself or a member of its set, marked with the set. -/
def OfRow (call : PackingCall) (row : PoolRow) (printed : Printed PacketFact) : Prop :=
  printed.item.conflictId = (contestedIn call row).map ConflictSet.id ∧
    (.fact printed.item.id = row.id ∨ ∃ s ∈ contestedIn call row, printed.item.id ∈ s.factIds)

/-- The members of a set that is not in the packet yet are new, the row apart. -/
theorem findsCompanion_iff {row : FactRow} (hs : call.contestedConflict row.fact.id = some s)
    (hfits : p.Fits call (p.printFact call row.fact (some s)).line)
    (hfresh : ∀ id ∈ s.factIds, id ∉ p.packedFactIds) :
    p.FindsCompanion call (.fact row) ↔ ∃ id ∈ s.factIds,
      id ∉ (p.addFact (p.printFact call row.fact (some s)) .conflictDisputed).packedFactIds ∧
      (p.addFact (p.printFact call row.fact (some s)) .conflictDisputed).CanFollow call s id := by
  constructor
  · intro h
    obtain ⟨id, hid, hne, hfollows⟩ := h s hs hfits
    refine ⟨id, hid, fun hpacked ↦ ?_, hfollows⟩
    rcases List.mem_append.mp hpacked with hpacked | hpacked
    · exact hfresh id hid hpacked
    · exact hne (List.mem_singleton.mp hpacked)
  · rintro ⟨id, hid, hnew, hfollows⟩ t ht -
    obtain rfl : s = t := Option.some.inj (hs.symm.trans ht)
    exact ⟨id, hid, fun heq ↦ hnew (List.mem_append_right _ (List.mem_singleton.mpr heq)), hfollows⟩

/-- What a row adds, and when it is a right block. -/
theorem packRow_adds (hkeyed : call.KeyedRows) {row : PoolRow} (hclear : p.Clear call row) :
    ∃ added, Adds p (p.packRow call row) added ∧ (∀ printed ∈ added, OfRow call row printed) ∧
      (ConflictsShared added ↔ p.FindsCompanion call row) := by
  cases row with
  | episode row =>
    have hshared : ConflictsShared [] := conflictsShared_of_forall_none (by rintro _ ⟨⟩)
    refine ⟨[], ?_, by rintro _ ⟨⟩, iff_of_true hshared trivial⟩
    rcases packEpisode_cases call p row with ⟨_, -, heq⟩ | ⟨-, -, heq⟩
    · rw [packRow, heq]
      exact .nil rfl rfl
    · rw [packRow, heq]
      exact .nil rfl rfl
  | fact row =>
    rw [packRow]
    rcases packFact_cases call p row.fact with
      ⟨hover, heq⟩ | ⟨hnone, hfits, heq⟩ | ⟨s, hs, hfits, heq⟩
    · refine ⟨[], heq ▸ .nil rfl rfl, by rintro _ ⟨⟩, iff_of_true
        (conflictsShared_of_forall_none (by rintro _ ⟨⟩)) fun s hs hfits ↦ absurd hfits ?_⟩
      rwa [← show call.contestedConflict row.fact.id = some s from hs]
    · refine ⟨[p.printFact call row.fact none], heq ▸ .cons .topScore (.nil rfl rfl), ?_,
        iff_of_true (conflictsShared_of_forall_none ?_) fun s hs ↦ ?_⟩
      · refine List.forall_mem_singleton.mpr ⟨?_, .inl rfl⟩
        rw [contestedIn, hnone]
        rfl
      · exact List.forall_mem_singleton.mpr rfl
      · cases hnone.symm.trans hs
    · obtain ⟨hfresh, -⟩ := hclear s hs
      obtain ⟨added, hadds, hadded, hiff⟩ := packSiblings_adds hkeyed s s.factIds
        (p.addFact (p.printFact call row.fact (some s)) .conflictDisputed).chargeContested
      refine ⟨p.printFact call row.fact (some s) :: added,
        heq ▸ .cons .conflictDisputed ⟨hadds.facts, hadds.ids⟩, List.forall_mem_cons.mpr
          ⟨⟨?_, .inl rfl⟩, fun printed hprinted ↦ ?_⟩, ?_⟩
      · rw [contestedIn, hs]
        rfl
      · obtain ⟨hmark, hid, -⟩ := hadded printed hprinted
        exact ⟨by rw [contestedIn, hs, hmark]; rfl, .inr ⟨s, hs, hid⟩⟩
      · rw [conflictsShared_cons rfl fun printed hprinted ↦ ?_, hiff]
        · exact (findsCompanion_iff hs hfits hfresh).symm
        · obtain ⟨hmark, -, hnew⟩ := hadded printed hprinted
          exact ⟨hmark, fun heq ↦ hnew (List.mem_append_right _ (List.mem_singleton.mpr heq))⟩

/-! ## The loop -/

/-- The sets two rows are contested in have nothing in common. -/
def RowsApart (call : PackingCall) (row other : PoolRow) : Prop :=
  ∀ t ∈ contestedIn call other, (∀ id ∈ t.factIds, .fact id ≠ row.id) ∧
    ∀ s ∈ contestedIn call row, s.id ≠ t.id ∧ ∀ id ∈ s.factIds, id ∉ t.factIds

/-- A row leaves no trace of the set of a row it is apart from. -/
theorem Clear.packRow {row other : PoolRow} (hclear : p.Clear call other)
    (hapart : RowsApart call row other) (hadds : Adds p (p.packRow call row) added)
    (hadded : ∀ printed ∈ added, OfRow call row printed) :
    (p.packRow call row).Clear call other := by
  intro t ht
  obtain ⟨hfresh, hmarks⟩ := hclear t ht
  obtain ⟨hrow, hset⟩ := hapart t ht
  rw [hadds.ids, hadds.facts]
  refine ⟨fun id hid hpacked ↦ ?_, fun printed hprinted hmark ↦ ?_⟩
  · rcases List.mem_append.mp hpacked with hpacked | hpacked
    · exact hfresh id hid hpacked
    · obtain ⟨printed, hprinted, rfl⟩ := List.mem_map.mp hpacked
      rcases (hadded printed hprinted).2 with hself | ⟨s, hs, hmember⟩
      · exact hrow _ hid hself
      · exact (hset s hs).2 _ hmember hid
  · rcases List.mem_append.mp hprinted with hprinted | hprinted
    · exact hmarks printed hprinted hmark
    · obtain ⟨s, hs, hid⟩ :=
        Option.map_eq_some_iff.mp ((hadded printed hprinted).1.symm.trans hmark)
      exact (hset s hs).1 hid

/-- **Loop.**  Over rows that are apart, a packet stays right exactly when every contested fact
that is packed finds a companion. -/
theorem conflictsShared_packRows (hkeyed : call.KeyedRows) {rows : List PoolRow}
    (hapart : rows.Pairwise (RowsApart call)) (hclear : ∀ row ∈ rows, p.Clear call row) :
    ConflictsShared (rows.foldl (packRow call) p).facts ↔
      ConflictsShared p.facts ∧ RunMeets call (FindsCompanion call) p rows := by
  induction rows generalizing p with
  | nil => exact (and_iff_left runMeets_nil).symm
  | cons row rows ih =>
    obtain ⟨hrow, hrows⟩ := List.pairwise_cons.mp hapart
    obtain ⟨hhead, htail⟩ := List.forall_mem_cons.mp hclear
    obtain ⟨added, hadds, hadded, hshared⟩ := packRow_adds hkeyed hhead
    have hstep : ConflictsShared (p.packRow call row).facts ↔
        ConflictsShared p.facts ∧ p.FindsCompanion call row := by
      rw [hadds.facts, conflictsShared_append, hshared]
      intro printed hprinted c hc other hother hmark
      obtain ⟨s, hs, rfl⟩ :=
        Option.map_eq_some_iff.mp ((hadded other hother).1.symm.trans hmark)
      exact (hhead s hs).2 printed hprinted hc
    have hnext : ∀ other ∈ rows, (p.packRow call row).Clear call other := fun other hother ↦
      (htail other hother).packRow (hrow other hother) hadds hadded
    rw [List.foldl_cons, ih hrows hnext, hstep, runMeets_cons, and_assoc]

/-! ## Budgets -/

/-- A contested fact has another member of its set that can be served. -/
def HasSibling (call : PackingCall) : PoolRow → Prop
  | .fact row => ∀ s ∈ call.contestedConflict row.fact.id, ∃ id ∈ s.factIds, id ≠ row.fact.id ∧
      ∃ sibling ∈ call.contestedRow id, sibling.Served
  | .episode _ => True

instance (call : PackingCall) (row : PoolRow) : Decidable (HasSibling call row) :=
  match row with
  | .fact row => inferInstanceAs (Decidable (∀ s ∈ call.contestedConflict row.fact.id,
      ∃ id ∈ s.factIds, id ≠ row.fact.id ∧ ∃ sibling ∈ call.contestedRow id, sibling.Served))
  | .episode _ => isTrue trivial

/-- Under a large budget, only a sibling that cannot be served is missed. -/
theorem eventually_findsCompanion_iff (call : PackingCall) (p : Packing) (row : PoolRow) :
    ∀ᶠ b in atTop, p.FindsCompanion (call.withBudget b) row ↔ HasSibling call row := by
  cases row with
  | episode row => exact .of_forall fun b ↦ Iff.rfl
  | fact row =>
    cases hconflict : call.contestedConflict row.fact.id with
    | none =>
      refine .of_forall fun b ↦ iff_of_true ?_ ?_
      · intro s hs
        cases hconflict.symm.trans hs
      · intro s hs
        cases hconflict.symm.trans hs
    | some s =>
      set q := p.addFact (p.printFact call row.fact (some s)) .conflictDisputed
      by_cases h : HasSibling call (.fact row)
      · obtain ⟨id, hid, hne, sibling, hrow, hserved⟩ := h s hconflict
        refine (eventually_ge_atTop (q.tokenCount +
          estimateTokens (q.printFact call sibling (some s)).line)).mono fun b hb ↦
            iff_of_true (fun t ht _ ↦ ?_) h
        obtain rfl : s = t := Option.some.inj (hconflict.symm.trans ht)
        exact ⟨id, hid, hne, sibling, hrow, hserved, hb⟩
      · refine (eventually_ge_atTop (p.tokenCount +
          estimateTokens (p.printFact call row.fact (some s)).line)).mono fun b hb ↦
            iff_of_false (fun hfinds ↦ h fun t ht ↦ ?_) h
        obtain rfl : s = t := Option.some.inj (hconflict.symm.trans ht)
        obtain ⟨id, hid, hne, sibling, hrow, hserved, -⟩ := hfinds s ht hb
        exact ⟨id, hid, hne, sibling, hrow, hserved⟩

/-- A line that fills the budget leaves no room for a companion. -/
theorem not_findsCompanion_of_filled {row : FactRow} (hs : call.contestedConflict row.fact.id = some s)
    (hfilled : p.tokenCount + estimateTokens (p.lineOf call row.fact) = call.budgetTokens) :
    ¬ p.FindsCompanion call (.fact row) := by
  intro h
  rw [lineOf, hs] at hfilled
  obtain ⟨id, -, -, sibling, -, -, hfits⟩ := h s hs hfilled.le
  set q := p.addFact (p.printFact call row.fact (some s)) .conflictDisputed
  have hpos := estimateTokens_pos (q.printFact call sibling (some s)).line
  have hfits : p.tokenCount + estimateTokens (p.printFact call row.fact (some s)).line +
      estimateTokens (q.printFact call sibling (some s)).line ≤ call.budgetTokens := hfits
  omega

/-- Some budget leaves no room for a companion of the first contested row. -/
theorem exists_not_findsCompanion (hkeyed : call.KeyedRows) (p : Packing) {rows : List PoolRow}
    (h : ∃ row ∈ rows, contestedIn call row ≠ none) :
    ∃ b, 0 < b ∧ ¬ RunMeets (call.withBudget b) (FindsCompanion (call.withBudget b)) p rows := by
  obtain ⟨row, hrow, hcontested⟩ := h
  have hfound : (rows.find? fun row ↦ (contestedIn call row).isSome).isSome :=
    List.find?_isSome.mpr ⟨row, hrow, Option.isSome_iff_ne_none.mpr hcontested⟩
  obtain ⟨first, hfirst⟩ := Option.isSome_iff_exists.mp hfound
  obtain ⟨hcontested, before, after, rfl, hbefore⟩ := List.find?_eq_some_iff_append.mp hfirst
  obtain ⟨s, hs⟩ := Option.isSome_iff_exists.mp hcontested
  have hnone : ∀ other ∈ before, contestedIn call other = none := by
    intro other hother
    simpa using hbefore other hother
  cases first with
  | episode first => cases hs
  | fact first =>
    obtain ⟨b, hpos, -, hfilled⟩ := exists_filled first hkeyed p hnone
    have hnot : ¬ (before.foldl (packRow (call.withBudget b)) p).FindsCompanion (call.withBudget b)
        (.fact first) := not_findsCompanion_of_filled hs hfilled
    exact ⟨b, hpos, fun hmeets ↦ hnot (hmeets before (.fact first) after rfl)⟩

/-- Under a large budget, every step finds a companion exactly when every row has a sibling that can
be served. -/
theorem eventually_runMeets_iff (hkeyed : call.KeyedRows) (p : Packing) (rows : List PoolRow) :
    ∀ᶠ b in atTop, RunMeets (call.withBudget b) (FindsCompanion (call.withBudget b)) p rows ↔
      ∀ row ∈ rows, HasSibling call row := by
  induction rows generalizing p with
  | nil => exact .of_forall fun b ↦ iff_of_true runMeets_nil (by rintro _ ⟨⟩)
  | cons row rows ih =>
    obtain ⟨q, hq, -⟩ := eventually_packRow hkeyed p row
    refine (hq.and ((eventually_findsCompanion_iff call p row).and (ih q))).mono
      fun b ⟨hq, hrow, hrows⟩ ↦ ?_
    rw [runMeets_cons, hq, hrow, hrows, List.forall_mem_cons]

end Packing

/-! ## Calls -/

section Calls

variable {reader : Reader} {store : Store} {request : ContextRequest} {built : BuiltContext}

/-- The rows a call packs are apart when no fact is in two open sets and no set has two active
members. -/
theorem packedPool_rowsApart (h : store.ledger.OpenSets) :
    ((packedPool reader store request).map Ranked.row).Pairwise
      (Packing.RowsApart (packingCall reader store request)) := by
  have hranked {row : FactRow}
      (hrow : .fact row ∈ (packedPool reader store request).map Ranked.row) :
      row.fact ∈ store.ledger.facts ∧ row.fact.status = .active := by
    obtain ⟨hmem, -, heligible, -⟩ := mem_factRows
      (mem_gatedRows ((packedPool_subperm reader store request).subset hrow)).1
    exact ⟨hmem, heligible.1⟩
  refine List.Pairwise.imp_of_mem ?_ (List.pairwise_map.mp (nodup_packedPool reader store request))
  intro row other hrow hother hne t ht
  cases other with
  | episode other => cases ht
  | fact other =>
    obtain ⟨htmem, -, htopen, -, hlisted⟩ := contestedConflict_some ht
    have hself : ∀ id ∈ t.factIds, .fact id ≠ row.id := by
      rintro id hid heq
      cases row with
      | episode row => cases heq
      | fact row =>
        obtain rfl := ItemId.fact.inj heq
        exact hne (congrArg (fun f : Fact ↦ ItemId.fact f.id) (h.served t htmem htopen _
          (hranked hrow).1 _ (hranked hother).1 (hranked hrow).2 (hranked hother).2 hid hlisted))
    refine ⟨hself, fun s hs ↦ ?_⟩
    cases row with
    | episode row => cases hs
    | fact row =>
      obtain ⟨hsmem, -, hsopen, -, hslisted⟩ := contestedConflict_some hs
      have hdistinct : s ≠ t := by
        rintro rfl
        exact hself _ hslisted rfl
      exact ⟨fun heq ↦ hdistinct (Table.eq_of_key_eq hsmem htmem heq),
        fun id hid hidt ↦ hdistinct (h.apart s hsmem t htmem hsopen htopen id hid hidt)⟩

/-- A packet is right exactly when every contested fact in it found a companion. -/
theorem conflictsShared_iff (h : store.ledger.OpenSets)
    (hbuilt : buildContext reader store request = .ok built) :
    ConflictsShared built.packet.facts ↔ Packing.RunMeets (packingCall reader store request)
      (Packing.FindsCompanion (packingCall reader store request))
      { decisions := (gatedRows reader store request).2 }
      ((packedPool reader store request).map Ranked.row) := by
  have hstart : ConflictsShared [] := conflictsShared_of_forall_none (by rintro _ ⟨⟩)
  rw [buildContext_facts hbuilt]
  refine (Packing.conflictsShared_packRows (packingCall_keyedRows reader store request)
    (packedPool_rowsApart h) fun row _ s _ ↦ ?_).trans (and_iff_right hstart)
  exact ⟨fun id _ ↦ List.not_mem_nil, by rintro _ ⟨⟩⟩

/-- The set a fact is contested in, among the open ones of the subject. -/
def contestedSet (store : Store) (request : ContextRequest) (f : Fact) : Option ConflictSet :=
  contestedConflict (store.ledger.openConflictSets request.scope) f.id

/-- No fact that passes the gate is contested. -/
def NothingContested (reader : Reader) (store : Store) (request : ContextRequest) : Prop :=
  ∀ row, .fact row ∈ (gatedRows reader store request).1 → contestedSet store request row.fact = none

/-- Every contested fact that passes the gate has another member of its set that can be served. -/
def SiblingsServed (reader : Reader) (store : Store) (request : ContextRequest) : Prop :=
  ∀ row, .fact row ∈ (gatedRows reader store request).1 → ∀ s ∈ contestedSet store request row.fact,
    ∃ f ∈ store.ledger.facts, f.id ∈ s.factIds ∧ f.id ≠ row.fact.id ∧ f.Served

/-- The rows of a pool have siblings exactly when the ledger has them. -/
theorem hasSibling_iff (haligned : reader.RerankAligned) (store : Store) (request : ContextRequest) :
    (∀ row ∈ (packedPool reader store request).map Ranked.row,
      Packing.HasSibling (packingCall reader store request) row) ↔
      SiblingsServed reader store request := by
  have hpool := packedPool_perm store request haligned
  constructor
  · intro h row hrow s hs
    obtain ⟨id, hid, hne, sibling, hsibling, hserved⟩ := h _ (hpool.mem_iff.mpr hrow) s hs
    obtain ⟨hmem, rfl⟩ := Db.fact?_eq_some_iff.mp (contestedRow_some hsibling)
    exact ⟨sibling, hmem, hid, hne, hserved⟩
  · intro h row hrow
    cases row with
    | episode row => trivial
    | fact row =>
      intro s hs
      have hgated := hpool.mem_iff.mp hrow
      obtain ⟨f, hf, hid, hne, hserved⟩ := h row hgated s hs
      exact ⟨f.id, hid, hne, f, contestedRow_of_contestedIn (List.Subset.refl _)
        ⟨row, hgated, hs⟩ hf hid, hserved⟩

/-- Under every budget the contested facts are served together only when there are none. -/
theorem forall_conflictsShared_iff (haligned : reader.RerankAligned) (h : store.ledger.OpenSets)
    (request : ContextRequest) :
    (∀ budgetTokens built, buildContext reader store (request.withBudget budgetTokens) = .ok built →
      ConflictsShared built.packet.facts) ↔ NothingContested reader store request := by
  have hpool := packedPool_perm store request haligned
  constructor
  · intro hall row hrow
    by_contra hcontested
    obtain ⟨b, hpos, hnot⟩ := Packing.exists_not_findsCompanion
      (packingCall_keyedRows reader store request)
      { decisions := (gatedRows reader store request).2 }
      ⟨.fact row, hpool.mem_iff.mpr hrow, hcontested⟩
    have hbuilt := buildContext_eq reader store (request.withBudget b) (Int.natCast_pos.mpr hpos)
    have hshared := (conflictsShared_iff h hbuilt).mp (hall b _ hbuilt)
    exact hnot hshared
  · intro hnone budgetTokens built hbuilt
    refine (conflictsShared_iff h hbuilt).mpr fun before row after heq ↦ ?_
    cases row with
    | episode row => trivial
    | fact row =>
      intro s hs
      have hrow : .fact row ∈ (packedPool reader store request).map Ranked.row :=
        heq ▸ List.mem_append_right _ List.mem_cons_self
      cases (hnone row (hpool.mem_iff.mp hrow)).symm.trans hs

/-- Under a large budget they are served together when a sibling can be served. -/
theorem eventually_conflictsShared_iff (haligned : reader.RerankAligned)
    (h : store.ledger.OpenSets) (request : ContextRequest) :
    ∀ᶠ b : Nat in atTop, ∀ built, buildContext reader store (request.withBudget b) = .ok built →
      (ConflictsShared built.packet.facts ↔ SiblingsServed reader store request) := by
  refine (Packing.eventually_runMeets_iff (packingCall_keyedRows reader store request)
    { decisions := (gatedRows reader store request).2 }
    ((packedPool reader store request).map Ranked.row)).mono fun b hb built hbuilt ↦ ?_
  exact ((conflictsShared_iff h hbuilt).trans hb).trans (hasSibling_iff haligned store request)

/-- `Nice` is forgotten while it contends with `Lyon`. -/
def Sample.forgottenNice : List Op :=
  Sample.lyonOrNice ++ [.forgetFact 3 "project" ⟨2, 0⟩ .disable]

end Calls

end Haki
