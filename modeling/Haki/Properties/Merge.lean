import Haki.Requests
import Haki.Sample

/-!
# A merge moves everything

`merge_subjects` updates the subject of every row of the source.  The update of
the facts meets the partial unique index: where both subjects hold an active
state fact of one identity, the merge fails.  Where it succeeds, the rows of
the five tables it names are the target's, with everything else as it was, and
the receipt counts them; the predicate aliases of the source are not among
them.  `mergeSubjects_total_iff` says when a merge succeeds and leaves nothing
behind.
-/

namespace Haki

open Data Control Scoped

/-! ## Rows that move -/

section

variable {α : Type} [Scoped α] {source target : Scope} {rows rows' : List α}

/-- The rows of the two subjects are the target's, and otherwise as they were, and no row is the
source's. -/
structure Moved (source target : Scope) (rows rows' : List α) : Prop where
  kept : ∀ a ∈ rows, scope a = source ∨ scope a = target → withScope target a ∈ rows'
  vacated : ∀ a ∈ rows', scope a ≠ source

/-- How many rows a subject has. -/
def countOf (s : Scope) (rows : List α) : Nat := (rows.filter fun a ↦ scope a = s).length

theorem moved_map (h : source ≠ target) (rows : List α) :
    Moved source target rows (rows.map (rescope (rename source target))) := by
  constructor
  · rintro a ha hscope
    refine List.mem_map.mpr ⟨a, ha, ?_⟩
    show withScope (rename source target (scope a)) a = withScope target a
    rcases hscope with hscope | hscope
    · rw [hscope, rename_self]
    · rw [hscope, rename_of_ne h.symm]
  · intro a ha
    obtain ⟨b, -, rfl⟩ := List.mem_map.mp ha
    show scope (withScope _ b) ≠ source
    rw [scope_withScope]
    exact rename_ne h _

theorem moved_modify {κ : Type} [Keyed α κ] [DecidableEq κ]
    (hkey : ∀ (g : Scope → Scope) (a : α), key (rescope g a) = key a) (h : source ≠ target)
    (t : Table α) :
    Moved source target t.rows (t.modify (rescope (rename source target))).rows := by
  rw [Table.rows_modify (hkey _)]
  exact moved_map h t.rows

end

namespace Memory

variable {env : Env} {m m' : Memory} {projectId source target : String}
  {receipt : SubjectMergeReceipt}

/-- What a merge promises of the tables it names: the rows moved, and the receipt counts them. -/
structure MovedInto (m m' : Memory) (receipt : SubjectMergeReceipt) (source target : Scope) :
    Prop where
  events : Moved source target m.ledger.events.rows m'.ledger.events.rows
  episodeChunks : Moved source target m.episodeChunks.rows m'.episodeChunks.rows
  facts : Moved source target m.ledger.facts.rows m'.ledger.facts.rows
  conflictSets : Moved source target m.ledger.conflictSets.rows m'.ledger.conflictSets.rows
  contextTraces : Moved source target m.ledger.contextTraces m'.ledger.contextTraces
  aliases : ∀ a ∈ m'.subjectAliases, ¬ (a.projectId = source.projectId ∧
    a.canonicalSubjectId = source.subjectId)
  eventsMoved : receipt.counters.eventsMoved = countOf source m.ledger.events.rows
  factsMoved : receipt.counters.factsMoved = countOf source m.ledger.facts.rows
  conflictSetsMoved : receipt.counters.conflictSetsMoved = countOf source m.ledger.conflictSets.rows
  tracesMoved : receipt.counters.tracesMoved = countOf source m.ledger.contextTraces
  aliasesRepointed : receipt.counters.aliasesRepointed = (m.subjectAliases.rows.filter fun a ↦
    a.projectId = source.projectId ∧ a.canonicalSubjectId = source.subjectId).length

/-- The merge succeeds, moves what it names, and leaves nothing to the source. -/
def MergesTotally (m : Memory) (projectId source target : String) : Prop :=
  ∃ m' receipt, m.mergeSubjects projectId source target = .ok (m', receipt) ∧
    m.MovedInto m' receipt ⟨projectId, source⟩ ⟨projectId, target⟩ ∧
    ∀ a ∈ m'.ledger.predicateAliases, a.scope ≠ ⟨projectId, source⟩

/-- An active state fact of the source has the identity of one of the target. -/
def Clash (db : Db) (source target : Scope) : Prop :=
  ∃ f ∈ db.facts, f.scope = source ∧ f.Current ∧ ∃ g ∈ db.facts, g.scope = target ∧ g.Current ∧
    f.predicate = g.predicate ∧ identityQualifiersSql f g.qualifiers

instance (db : Db) (source target : Scope) : Decidable (Clash db source target) :=
  inferInstanceAs (Decidable (∃ f ∈ db.facts, f.scope = source ∧ f.Current ∧ ∃ g ∈ db.facts,
    g.scope = target ∧ g.Current ∧ f.predicate = g.predicate ∧
      identityQualifiersSql f g.qualifiers))

end Memory

/-! ## The index -/

section

variable {db : Db} {source target : Scope}

/-- After a merge the index holds exactly when no two facts clash. -/
theorem unique_rescoped_iff (hu : db.UniqueActive) (h : source ≠ target) :
    (db.rescoped (rename source target)).UniqueActive ↔ ¬ Memory.Clash db source target := by
  have hmem {f' : Fact} : f' ∈ (db.rescoped (rename source target)).facts ↔
      ∃ f ∈ db.facts, rescope (rename source target) f = f' :=
    Table.mem_modify (f := rescope (rename source target)) fun _ ↦ rfl
  constructor
  · rintro hu' ⟨f, hf, hfs, hfc, g, hg, hgs, hgc, hpredicate, hqualifiers⟩
    have hslot : (rescope (rename source target) f).SameSlot (rescope (rename source target) g) := by
      refine ⟨?_, hpredicate, hqualifiers⟩
      show rename source target f.scope = rename source target g.scope
      rw [hfs, hgs, rename_self, rename_of_ne h.symm]
    have hid : (rescope (rename source target) f).id = (rescope (rename source target) g).id :=
      hu' _ (hmem.mpr ⟨f, hf, rfl⟩) hfc _ (hmem.mpr ⟨g, hg, rfl⟩) hgc hslot
    replace hid : f.id = g.id := hid
    obtain rfl := Db.eq_of_id_eq hf hg hid
    exact h (hfs.symm.trans hgs)
  · intro hclash f' hf' hfc g' hg' hgc hslot
    obtain ⟨f, hf, rfl⟩ := hmem.mp hf'
    obtain ⟨g, hg, rfl⟩ := hmem.mp hg'
    obtain ⟨hscope, hpredicate, hqualifiers⟩ := hslot
    replace hscope : rename source target f.scope = rename source target g.scope := hscope
    -- Either the scopes were the same before, or one fact was the source's, one the target's.
    by_cases hfs : f.scope = source <;> by_cases hgs : g.scope = source
    · exact hu f hf hfc g hg hgc ⟨hfs.trans hgs.symm, hpredicate, hqualifiers⟩
    · rw [hfs, rename_self, rename_of_ne hgs] at hscope
      exact (hclash ⟨f, hf, hfs, hfc, g, hg, hscope.symm, hgc, hpredicate, hqualifiers⟩).elim
    · rw [hgs, rename_self, rename_of_ne hfs] at hscope
      refine (hclash ⟨g, hg, hgs, hgc, f, hf, hscope, hfc, hpredicate.symm, ?_⟩).elim
      exact (Fact.SameSlot.symm (f := rescope (fun _ ↦ target) f)
        (g := rescope (fun _ ↦ target) g) ⟨rfl, hpredicate, hqualifiers⟩).2.2
    · rw [rename_of_ne hfs, rename_of_ne hgs] at hscope
      exact hu f hf hfc g hg hgc ⟨hscope, hpredicate, hqualifiers⟩

end

/-! ## The merge -/

namespace Memory

variable {env : Env} {m m' : Memory} {projectId source target : String}
  {receipt : SubjectMergeReceipt}

theorem scope_ne (projectId : String) (h : source ≠ target) :
    (⟨projectId, source⟩ : Scope) ≠ ⟨projectId, target⟩ :=
  fun heq ↦ h (Scope.mk.inj heq).2

theorem repoint_vacates {a : SubjectAlias} (h : source ≠ target) :
    ¬ ((a.repoint projectId source target).projectId = projectId ∧
      (a.repoint projectId source target).canonicalSubjectId = source) := by
  rw [SubjectAlias.repoint]
  split
  · exact fun hc ↦ h hc.2.symm
  · assumption

/-- A merge that succeeds moves the tables it names. -/
theorem mergeSubjects_moves
    (h : m.mergeSubjects projectId source target = .ok (m', receipt)) :
    m.MovedInto m' receipt ⟨projectId, source⟩ ⟨projectId, target⟩ := by
  obtain ⟨⟨-, -, hst⟩, -, rfl, rfl⟩ := mergeSubjects_eq_ok h
  have hscope := scope_ne projectId hst
  constructor
  case events => exact moved_modify (fun _ _ ↦ rfl) hscope _
  case episodeChunks => exact moved_modify (fun _ _ ↦ rfl) hscope _
  case facts => exact moved_modify (fun _ _ ↦ rfl) hscope _
  case conflictSets => exact moved_modify (fun _ _ ↦ rfl) hscope _
  case contextTraces => exact moved_map hscope _
  case aliases =>
    intro a ha
    rcases Table.mem_of_mem_insert ha with ha | rfl
    · obtain ⟨b, -, rfl⟩ := (Table.mem_modify (key_repoint projectId source target)).mp ha
      exact repoint_vacates hst
    · exact fun hc ↦ hst hc.2.symm
  all_goals simp [Memory.receipt, movedRows, countOf, scope]

/-- **A merge moves everything** exactly when no active state fact of the source has the identity of
one of the target, and no predicate synonym was learned for the source. -/
theorem mergeSubjects_total_iff (hm : m.Reachable env) (hs : source ≠ "") (ht : target ≠ "")
    (hst : source ≠ target) :
    m.MergesTotally projectId source target ↔
      ¬ Clash m.ledger ⟨projectId, source⟩ ⟨projectId, target⟩ ∧
        ∀ a ∈ m.ledger.predicateAliases, a.scope ≠ ⟨projectId, source⟩ := by
  have hindex := unique_rescoped_iff hm.unique (scope_ne projectId hst)
  constructor
  · rintro ⟨m', receipt, h, -, haliases⟩
    obtain ⟨-, hunique, -, rfl⟩ := mergeSubjects_eq_ok h
    exact ⟨hindex.mp hunique, haliases⟩
  · rintro ⟨hclash, haliases⟩
    obtain ⟨m', h⟩ := mergeSubjects_of_unique hs ht hst (hindex.mpr hclash)
    refine ⟨m', _, h, mergeSubjects_moves h, ?_⟩
    obtain ⟨-, -, -, rfl⟩ := mergeSubjects_eq_ok h
    exact haliases

/-- An event of the subject says that `predicate` is Lyon. -/
def saysLyon (id : EventId) (subjectId predicate : String) : List Request :=
  let event := { Sample.event id .trusted with scope := ⟨"project", subjectId⟩ }
  [.capture event none,
    .consolidate id (Sample.always [Sample.create predicate "Lyon"]) [id] none]

/-- Anna and Ben have an active fact each, of different identities, and can be merged. -/
theorem mergeSubjects_total_iff_anna :
    let m := runRequests .sample .empty (saysLyon 1 "anna" "city" ++ saysLyon 2 "ben" "home")
    (∃ f ∈ m.ledger.facts, f.scope = ⟨"project", "anna"⟩ ∧ f.Current) ∧
      (∃ f ∈ m.ledger.facts, f.scope = ⟨"project", "ben"⟩ ∧ f.Current) ∧
      m.MergesTotally "project" "anna" "ben" := by
  refine ⟨by decide +kernel, by decide +kernel, ?_⟩
  refine (mergeSubjects_total_iff ⟨_, rfl⟩ ?_ ?_ ?_).mpr ?_
  · simp
  · simp
  · simp
  · decide +kernel

/-- Anna and Ben both live in Lyon. -/
def bothInLyon : Memory :=
  runRequests .sample .empty (saysLyon 1 "anna" "city" ++ saysLyon 2 "ben" "city")

/-- Two subjects with one active fact each cannot be merged: the facts have the same identity. -/
theorem mergeSubjects_refused :
    bothInLyon.Reachable .sample ∧
      (∃ f ∈ bothInLyon.ledger.facts, f.scope = ⟨"project", "anna"⟩ ∧ f.status = .active) ∧
      (∃ f ∈ bothInLyon.ledger.facts, f.scope = ⟨"project", "ben"⟩ ∧ f.status = .active) ∧
      failure? (bothInLyon.mergeSubjects "project" "anna" "ben") =
        some (.ledger .uniqueViolation) ∧
      ¬ bothInLyon.MergesTotally "project" "anna" "ben" := by
  have hfails : failure? (bothInLyon.mergeSubjects "project" "anna" "ben") =
      some (.ledger .uniqueViolation) := by decide +kernel
  refine ⟨⟨_, rfl⟩, ?_, ?_, hfails, ?_⟩
  · decide +kernel
  · decide +kernel
  · rintro ⟨m', receipt, h, -⟩
    rw [h] at hfails
    cases hfails

end Memory

end Haki
