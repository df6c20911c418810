import Haki.Requests
import Haki.Sample

/-!
# Where an alias leads after merges

A merge is a move of a name, and the journal of the merges says how the names
of a project moved.  Every alias follows the moves, and so do the rows of the
ledger (`runRequests_routed`).  The tombstone of a merged-away name is an alias
that the merge inserts unless it exists: it leads to the merged memory exactly
when it is new, or already led to one of the two subjects, or is led there by
later merges (`aliases_follow_memory`).
-/

namespace Haki

open Data Control Scoped

/-! ## Moves of names -/

namespace Memory

/-- The merges of a project, oldest first. -/
def merges (m : Memory) (projectId : String) : List (String × String) :=
  (m.mergeReceipts.filter fun r ↦ r.projectId = projectId).map fun r ↦
    (r.sourceSubjectId, r.targetSubjectId)

/-- The subject an alias of a project resolves to. -/
def resolves? (m : Memory) (projectId aliasKind aliasValue : String) : Option String :=
  (m.subjectAliases.get? (projectId, aliasKind, aliasValue)).map SubjectAlias.canonicalSubjectId

end Memory

section

variable {α κ : Type} [Keyed α κ] [Scoped α] {projectId : String}
  {moves later : List (String × String)} {rows rows' rows'' : List α}

/-- The rows of a project are still there, under the names the moves lead to. -/
def RowsFollow (projectId : String) (moves : List (String × String)) (rows rows' : List α) : Prop :=
  ∀ a ∈ rows, ∀ s, scope a = ⟨projectId, s⟩ →
    ∃ a' ∈ rows', key a' = key a ∧ scope a' = ⟨projectId, follow moves s⟩

theorem RowsFollow.refl (projectId : String) (rows : List α) : RowsFollow projectId [] rows rows :=
  fun a ha _ hs ↦ ⟨a, ha, rfl, hs⟩

theorem RowsFollow.trans (h : RowsFollow projectId moves rows rows')
    (h' : RowsFollow projectId later rows' rows'') :
    RowsFollow projectId (moves ++ later) rows rows'' := by
  intro a ha s hs
  obtain ⟨b, hb, hkb, hsb⟩ := h a ha s hs
  obtain ⟨c, hc, hkc, hsc⟩ := h' b hb _ hsb
  exact ⟨c, hc, hkc.trans hkb, by rw [hsc, follow_append]⟩

theorem Framed.rowsFollow {new : Scope → Prop} (h : Framed new rows rows') :
    RowsFollow projectId [] rows rows' := by
  intro a ha s hs
  obtain ⟨a', ha', hk, hs'⟩ := h.kept a ha
  exact ⟨a', ha', hk, hs'.trans hs⟩

theorem rename_scope (projectId source target s : String) :
    rename (⟨projectId, source⟩ : Scope) ⟨projectId, target⟩ ⟨projectId, s⟩ =
      ⟨projectId, rename source target s⟩ := by
  by_cases h : s = source
  · rw [h, rename_self, rename_self]
  · rw [rename_of_ne h, rename_of_ne fun heq ↦ h (Scope.mk.inj heq).2]

/-- A merge in the project. -/
theorem rowsFollow_merge [DecidableEq κ] (hkey : ∀ (g : Scope → Scope) (a : α), key (rescope g a) =
    key a) (source target : String) (t : Table α) :
    RowsFollow projectId [(source, target)] t.rows
      (t.modify (rescope (Scope.merge projectId source target))).rows := by
  intro a ha s hs
  refine ⟨_, (Table.mem_modify (hkey _)).mpr ⟨a, ha, rfl⟩, hkey _ a, ?_⟩
  show scope (withScope _ a) = _
  rw [scope_withScope, Scope.merge, hs, rename_scope]
  rfl

/-- A merge in another project. -/
theorem rowsFollow_other [DecidableEq κ] (hkey : ∀ (g : Scope → Scope) (a : α), key (rescope g a) =
    key a) {other : String} (hother : other ≠ projectId) (source target : String) (t : Table α) :
    RowsFollow projectId [] t.rows
      (t.modify (rescope (Scope.merge other source target))).rows := by
  intro a ha s hs
  refine ⟨_, (Table.mem_modify (hkey _)).mpr ⟨a, ha, rfl⟩, hkey _ a, ?_⟩
  show scope (withScope _ a) = _
  rw [scope_withScope, Scope.merge, hs, rename_of_ne fun heq ↦ hother (Scope.mk.inj heq).1.symm]
  rfl

end

/-! ## Runs -/

namespace Memory

variable {env : Env} {m m' m'' : Memory} {projectId source target : String}
  {receipt : SubjectMergeReceipt} {moves later : List (String × String)}

/-- Aliases and rows of a project follow the merges journaled on the way. -/
structure Routed (projectId : String) (moves : List (String × String)) (m m' : Memory) : Prop where
  merges : m'.merges projectId = m.merges projectId ++ moves
  distinct : ∀ move ∈ moves, move.1 ≠ move.2
  aliases : ∀ kind value s, m.resolves? projectId kind value = some s →
    m'.resolves? projectId kind value = some (follow moves s)
  events : RowsFollow projectId moves m.ledger.events.rows m'.ledger.events.rows
  facts : RowsFollow projectId moves m.ledger.facts.rows m'.ledger.facts.rows
  conflictSets : RowsFollow projectId moves m.ledger.conflictSets.rows m'.ledger.conflictSets.rows

theorem Routed.refl (projectId : String) (m : Memory) : Routed projectId [] m m where
  merges := (List.append_nil _).symm
  distinct := by simp
  aliases _ _ _ h := h
  events := .refl projectId _
  facts := .refl projectId _
  conflictSets := .refl projectId _

theorem Routed.trans (h : Routed projectId moves m m') (h' : Routed projectId later m' m'') :
    Routed projectId (moves ++ later) m m'' where
  merges := by rw [h'.merges, h.merges, List.append_assoc]
  distinct := List.forall_mem_append.mpr ⟨h.distinct, h'.distinct⟩
  aliases kind value s hs := by
    rw [follow_append]
    exact h'.aliases kind value _ (h.aliases kind value s hs)
  events := h.events.trans h'.events
  facts := h.facts.trans h'.facts
  conflictSets := h.conflictSets.trans h'.conflictSets

/-- What a row of the table becomes, and what a new row does not take away. -/
theorem get?_repoint_insert {aliases : Table SubjectAlias} {k : String × String × String}
    {a row : SubjectAlias} (h : aliases.get? k = some a) :
    ((aliases.modify (SubjectAlias.repoint projectId source target)).insert row).get? k =
      some (a.repoint projectId source target) := by
  obtain ⟨ha, rfl⟩ := Table.get?_eq_some_iff.mp h
  refine Table.get?_eq_some_iff.mpr ⟨Table.mem_insert_of_mem ?_, key_repoint _ _ _ a⟩
  exact (Table.mem_modify (key_repoint projectId source target)).mpr ⟨a, ha, rfl⟩

theorem canonical_repoint (a : SubjectAlias) :
    (a.repoint a.projectId source target).canonicalSubjectId =
      rename source target a.canonicalSubjectId := by
  rw [SubjectAlias.repoint, rename]
  by_cases h : a.canonicalSubjectId = source
  · rw [if_pos ⟨rfl, h⟩, if_pos h]
  · rw [if_neg fun hc ↦ h hc.2, if_neg h]

theorem canonical_repoint_other {other : String} (a : SubjectAlias) (h : other ≠ a.projectId) :
    (a.repoint other source target).canonicalSubjectId = a.canonicalSubjectId := by
  rw [SubjectAlias.repoint, if_neg fun hc ↦ h hc.1.symm]

theorem resolves?_eq_some {kind value s : String} (h : m.resolves? projectId kind value = some s) :
    ∃ a, m.subjectAliases.get? (projectId, kind, value) = some a ∧ a.projectId = projectId ∧
      a.canonicalSubjectId = s := by
  obtain ⟨a, ha, hs⟩ := Option.map_eq_some_iff.mp h
  exact ⟨a, ha, (Prod.mk.inj (Table.key_of_get? ha)).1, hs⟩

/-- A merge in the project is one move. -/
theorem mergeSubjects_routed (h : m.mergeSubjects projectId source target = .ok (m', receipt)) :
    Routed projectId [(source, target)] m m' := by
  obtain ⟨⟨-, -, hst⟩, -, -, rfl⟩ := mergeSubjects_eq_ok h
  constructor
  case merges => simp [merges, Memory.receipt]
  case distinct => simpa using hst
  case aliases =>
    intro kind value s hs
    obtain ⟨a, ha, rfl, rfl⟩ := resolves?_eq_some hs
    rw [resolves?, get?_repoint_insert ha, Option.map_some, canonical_repoint]
    rfl
  case events => exact rowsFollow_merge (fun _ _ ↦ rfl) source target _
  case facts => exact rowsFollow_merge (fun _ _ ↦ rfl) source target _
  case conflictSets => exact rowsFollow_merge (fun _ _ ↦ rfl) source target _

/-- A merge in another project is none. -/
theorem mergeSubjects_routed_other {other : String} (hother : other ≠ projectId)
    (h : m.mergeSubjects other source target = .ok (m', receipt)) : Routed projectId [] m m' := by
  obtain ⟨-, -, -, rfl⟩ := mergeSubjects_eq_ok h
  constructor
  case merges => simp [merges, Memory.receipt, hother]
  case distinct => simp
  case aliases =>
    intro kind value s hs
    obtain ⟨a, ha, rfl, rfl⟩ := resolves?_eq_some hs
    rw [resolves?, get?_repoint_insert ha, Option.map_some, canonical_repoint_other a hother]
    rfl
  case events => exact rowsFollow_other (fun _ _ ↦ rfl) hother source target _
  case facts => exact rowsFollow_other (fun _ _ ↦ rfl) hother source target _
  case conflictSets => exact rowsFollow_other (fun _ _ ↦ rfl) hother source target _

theorem Extends.routed {new : Scope → Prop} (h : m.Extends new m') :
    Routed projectId [] m m' := by
  constructor
  case merges => rw [merges, merges, h.mergeReceipts, List.append_nil]
  case distinct => simp
  case aliases =>
    intro kind value s hs
    rcases h.subjectAliases with heq | ⟨row, hrow, -, heq⟩
    · rw [resolves?, heq]
      exact hs
    · obtain ⟨a, ha, -, rfl⟩ := resolves?_eq_some hs
      obtain ⟨ha, hk⟩ := Table.get?_eq_some_iff.mp ha
      have hget := Table.get?_eq_some_iff.mpr ⟨(Table.mem_insert hrow).mpr (.inl ha), hk⟩
      rw [resolves?, heq, hget]
      rfl
  case events => exact h.events.rowsFollow
  case facts => exact h.facts.rowsFollow
  case conflictSets => exact h.conflictSets.rowsFollow

/-- **Routing, one step.**  Aliases and rows follow the merge, if the request is one. -/
theorem run_routed (env : Env) {request : Request} (hrequest : request.KeepsSubjects)
    (hu : m.ledger.UniqueActive) (projectId : String) :
    Routed projectId [] m (request.run env m) ∨ ∃ source target receipt,
      request = .mergeSubjects projectId source target ∧
      m.mergeSubjects projectId source target = .ok (request.run env m, receipt) := by
  rw [Request.run]
  split
  · next m' h =>
    by_cases hmerge : ∃ other source target, request = .mergeSubjects other source target
    · obtain ⟨other, source, target, rfl⟩ := hmerge
      obtain ⟨⟨m', receipt⟩, hm, rfl⟩ := map_eq_ok.mp h
      by_cases hother : other = projectId
      · subst hother
        exact .inr ⟨source, target, receipt, rfl, hm⟩
      · exact .inl (mergeSubjects_routed_other hother hm)
    · refine .inl (Request.exec_extends ?_ hu h).routed
      cases request with
      | mergeSubjects => exact hmerge ⟨_, _, _, rfl⟩
      | forgetSubject now scope mode =>
        cases mode with
        | disable => trivial
        | delete => exact hrequest.elim
      | _ => trivial
  · exact .inl (.refl projectId m)

/-- **Routing.**  Over any run that erases no subject, aliases and rows follow the merges. -/
theorem runRequests_routed (env : Env) {requests : List Request}
    (hrequests : ∀ request ∈ requests, request.KeepsSubjects) (hu : m.ledger.UniqueActive)
    (projectId : String) : ∃ moves, Routed projectId moves m (runRequests env m requests) := by
  induction requests generalizing m with
  | nil => exact ⟨[], .refl projectId m⟩
  | cons request requests ih =>
    obtain ⟨hrequest, hrequests⟩ := List.forall_mem_cons.mp hrequests
    obtain ⟨later, hrun⟩ := ih hrequests (request.run_unique env hu)
    rcases run_routed env hrequest hu projectId with h | ⟨source, target, receipt, -, h⟩
    · exact ⟨_, h.trans hrun⟩
    · exact ⟨_, (mergeSubjects_routed h).trans hrun⟩

/-! ## The last merge of a name -/

/-- Something was merged away last by a request of the run, and only other names were merged since. -/
theorem exists_last_merge {requests : List Request} {s : String}
    (hrequests : ∀ request ∈ requests, request.KeepsSubjects)
    (haway : MovedAway ((runRequests env .empty requests).merges projectId) s) :
    ∃ pre t post m₁ receipt later, requests = pre ++ .mergeSubjects projectId s t :: post ∧
      (runRequests env .empty pre).mergeSubjects projectId s t = .ok (m₁, receipt) ∧
      Routed projectId later m₁ (runRequests env m₁ post) ∧
      ∀ move ∈ later, move.1 ≠ s ∧ move.2 ≠ s := by
  induction requests using List.reverseRecOn with
  | nil =>
    obtain ⟨before, y, after, h, -⟩ := haway
    exact absurd h (by simp [runRequests, merges, empty])
  | append_singleton requests request ih =>
    obtain ⟨hrequests, hrequest⟩ := List.forall_mem_append.mp hrequests
    have hu : (runRequests env .empty requests).ledger.UniqueActive :=
      Reachable.unique ⟨requests, rfl⟩
    rw [runRequests_append] at haway
    -- What the earlier requests say goes on to the last one, where it does not move `s`.
    have hgo {moves : List (String × String)} (hmoves : ∀ move ∈ moves, move.1 ≠ s ∧ move.2 ≠ s)
        (h : Routed projectId moves (runRequests env .empty requests)
          (request.run env (runRequests env .empty requests)))
        (haway : MovedAway ((runRequests env .empty requests).merges projectId) s) :
        ∃ pre t post m₁ receipt later,
          requests ++ [request] = pre ++ .mergeSubjects projectId s t :: post ∧
          (runRequests env .empty pre).mergeSubjects projectId s t = .ok (m₁, receipt) ∧
          Routed projectId later m₁ (runRequests env m₁ post) ∧
          ∀ move ∈ later, move.1 ≠ s ∧ move.2 ≠ s := by
      obtain ⟨pre, t, post, m₁, receipt, later, rfl, hm, hrouted, hlater⟩ := ih hrequests haway
      have hrun : runRequests env .empty (pre ++ .mergeSubjects projectId s t :: post) =
          runRequests env m₁ post := by
        rw [runRequests_append]
        show runRequests env (Request.run env _ _) post = _
        rw [run_mergeSubjects env hm]
      refine ⟨pre, t, post ++ [request], m₁, receipt, later ++ moves, by simp, hm, ?_, ?_⟩
      · rw [runRequests_append]
        rw [hrun] at h
        exact hrouted.trans h
      · exact List.forall_mem_append.mpr ⟨hlater, hmoves⟩
    rcases run_routed env (hrequest request (by simp)) hu projectId with
      h | ⟨source, target, receipt, rfl, h⟩
    · have hmerges := h.merges
      rw [List.append_nil] at hmerges
      exact hgo (by simp) h (hmerges ▸ haway)
    · have hmerges := (mergeSubjects_routed h).merges
      replace haway : MovedAway ((Request.run env (runRequests env .empty requests)
        (.mergeSubjects projectId source target)).merges projectId) s := haway
      rw [hmerges, movedAway_concat] at haway
      by_cases hs : s = source
      · subst hs
        exact ⟨requests, target, [], _, receipt, [], rfl, h, .refl _ _, by simp⟩
      · obtain ⟨ht, haway⟩ := haway.resolve_left hs
        refine hgo ?_ (mergeSubjects_routed h) haway
        simpa using ⟨Ne.symm hs, ht.symm⟩

/-! ## Aliases follow the memory -/

/-- A merge makes the tombstone lead to its target, or re-points the one it finds. -/
theorem resolves?_tombstone (h : m.mergeSubjects projectId source target = .ok (m', receipt)) :
    m'.resolves? projectId tombstoneKind source =
      some (((m.resolves? projectId tombstoneKind source).map (rename source target)).getD
        target) := by
  obtain ⟨-, -, -, rfl⟩ := mergeSubjects_eq_ok h
  show Option.map _ _ = _
  cases ha : m.subjectAliases.get? (projectId, tombstoneKind, source) with
  | none =>
    have hfresh : (m.subjectAliases.modify (SubjectAlias.repoint projectId source target)).Fresh
        ⟨projectId, tombstoneKind, source, target⟩ := by
      intro b hb
      obtain ⟨a, ha', rfl⟩ := (Table.mem_modify (key_repoint projectId source target)).mp hb
      rw [key_repoint]
      exact Table.get?_eq_none_iff.mp ha a ha'
    rw [Table.get?_insert hfresh, key_subjectAlias, if_pos rfl, resolves?, ha]
    rfl
  | some a =>
    obtain rfl : a.projectId = projectId := (Prod.mk.inj (Table.key_of_get? ha)).1
    rw [get?_repoint_insert ha, Option.map_some, canonical_repoint, resolves?, ha]
    rfl

/-- After later merges, the tombstone leads to where they lead the target, or it led elsewhere. -/
theorem tombstone_follow (h : m.mergeSubjects projectId source target = .ok (m', receipt))
    (hlater : Routed projectId later m' m'') :
    m''.resolves? projectId tombstoneKind source = some (follow later target) ↔
      ∀ canonical ∈ m.resolves? projectId tombstoneKind source,
        canonical = source ∨ follow later canonical = follow later target := by
  rw [hlater.aliases _ _ _ (resolves?_tombstone h), Option.some_inj]
  cases m.resolves? projectId tombstoneKind source with
  | none => simp
  | some canonical =>
    simp only [Option.map_some, Option.getD_some, Option.mem_def, Option.some.injEq,
      forall_eq']
    by_cases hs : canonical = source
    · rw [hs, rename_self]
      exact iff_of_true rfl (.inl rfl)
    · rw [rename_of_ne hs]
      exact ⟨.inr, fun h ↦ h.resolve_left hs⟩

/-- Right after the merge, it leads to the target, or led to neither of the two. -/
theorem tombstone_merge (h : m.mergeSubjects projectId source target = .ok (m', receipt)) :
    m'.resolves? projectId tombstoneKind source = some target ↔
      ∀ canonical ∈ m.resolves? projectId tombstoneKind source,
        canonical = source ∨ canonical = target :=
  tombstone_follow h (.refl projectId m')

/-- What belonged to `s`, and every alias that resolved to it, is `holder`'s, a name that is not
merged away. -/
structure AliasesFollow (m m' : Memory) (projectId s holder : String) : Prop where
  aliases : ∀ kind value, m.resolves? projectId kind value = some s →
    m'.resolves? projectId kind value = some holder
  events : ∀ e ∈ m.ledger.events, e.scope = ⟨projectId, s⟩ →
    ∃ e' ∈ m'.ledger.events, e'.id = e.id ∧ e'.scope = ⟨projectId, holder⟩
  facts : ∀ f ∈ m.ledger.facts, f.scope = ⟨projectId, s⟩ →
    ∃ f' ∈ m'.ledger.facts, f'.id = f.id ∧ f'.scope = ⟨projectId, holder⟩
  conflictSets : ∀ c ∈ m.ledger.conflictSets, c.scope = ⟨projectId, s⟩ →
    ∃ c' ∈ m'.ledger.conflictSets, c'.id = c.id ∧ c'.scope = ⟨projectId, holder⟩
  standing : ¬ MovedAway (m'.merges projectId) holder

/-- **Aliases follow the memory.**  In every run that erases no subject, let `s` be a name whose last
merge took it away: a merge into `t`.  The memory it moved, and every alias that resolved to `s`
just before, end where the later merges lead `t` to, a name that is not merged away.  The tombstone
leads to `t` right after the merge exactly when it did not exist before, or led to `s` or to `t`; and
it ends where the memory does exactly when the later merges lead what it led to there as well. -/
theorem aliases_follow_memory {requests : List Request} {s : String}
    (hrequests : ∀ request ∈ requests, request.KeepsSubjects)
    (haway : MovedAway ((runRequests env .empty requests).merges projectId) s) :
    ∃ pre t post later, requests = pre ++ .mergeSubjects projectId s t :: post ∧
      (runRequests env .empty requests).merges projectId =
        (runRequests env .empty pre).merges projectId ++ (s, t) :: later ∧
      (∀ move ∈ later, move.1 ≠ s ∧ move.2 ≠ s) ∧
      (runRequests env .empty pre).AliasesFollow (runRequests env .empty requests) projectId s
        (follow later t) ∧
      ((runRequests env .empty (pre ++ [.mergeSubjects projectId s t])).resolves? projectId
          tombstoneKind s = some t ↔
        ∀ canonical ∈ (runRequests env .empty pre).resolves? projectId tombstoneKind s,
          canonical = s ∨ canonical = t) ∧
      ((runRequests env .empty requests).resolves? projectId tombstoneKind s =
          some (follow later t) ↔
        ∀ canonical ∈ (runRequests env .empty pre).resolves? projectId tombstoneKind s,
          canonical = s ∨ follow later canonical = follow later t) := by
  obtain ⟨pre, t, post, m₁, receipt, later, rfl, hm, hlater, hother⟩ :=
    exists_last_merge hrequests haway
  have hmerge := run_mergeSubjects env hm
  have hfirst : runRequests env .empty (pre ++ [.mergeSubjects projectId s t]) = m₁ := by
    rw [runRequests_append]
    exact hmerge
  have hrun : runRequests env .empty (pre ++ .mergeSubjects projectId s t :: post) =
      runRequests env m₁ post := by
    rw [runRequests_append]
    show runRequests env (Request.run env _ _) post = _
    rw [hmerge]
  have hrouted : Routed projectId ((s, t) :: later) (runRequests env .empty pre)
      (runRequests env m₁ post) := (mergeSubjects_routed hm).trans hlater
  have hst : s ≠ t := (mergeSubjects_eq_ok hm).1.2.2
  have hend : follow ((s, t) :: later) s = follow later t := by rw [follow_cons, rename_self]
  refine ⟨pre, t, post, later, rfl, ?_, hother, ?_, ?_, ?_⟩
  · rw [hrun]
    exact hrouted.merges
  · rw [hrun]
    constructor
    case aliases => exact fun kind value hs ↦ hend ▸ hrouted.aliases kind value s hs
    case events => exact fun e he hs ↦ hend ▸ hrouted.events e he s hs
    case facts => exact fun f hf hs ↦ hend ▸ hrouted.facts f hf s hs
    case conflictSets => exact fun c hc hs ↦ hend ▸ hrouted.conflictSets c hc s hs
    case standing =>
      rw [hrouted.merges]
      exact not_movedAway_follow hst hlater.distinct
  · rw [hfirst]
    exact tombstone_merge hm
  · rw [hrun]
    exact tombstone_follow hm hlater

/-- An event is captured under a subject. -/
def namedEvent (id : EventId) (subjectId : String) : Request :=
  .capture { Sample.event id .trusted with scope := ⟨"project", subjectId⟩ } none

/-- Anna was merged into Ben. -/
def annaIsBen : List Request := [namedEvent 1 "anna", .mergeSubjects "project" "anna" "ben"]

/-- Anna was merged into Ben, and Ben into Carol. -/
def annaIsBenIsCarol : List Request :=
  annaIsBen ++ [namedEvent 2 "ben", .mergeSubjects "project" "ben" "carol"]

/-- Anna's tombstone leads to Carol. -/
theorem aliases_follow_memory_anna :
    (runRequests .sample .empty annaIsBenIsCarol).resolves? "project" tombstoneKind "anna" =
        some "carol" ∧
    ∃ pre t post later, annaIsBenIsCarol = pre ++ .mergeSubjects "project" "anna" t :: post ∧
      (runRequests .sample .empty annaIsBenIsCarol).merges "project" =
        (runRequests .sample .empty pre).merges "project" ++ ("anna", t) :: later ∧
      (∀ move ∈ later, move.1 ≠ "anna" ∧ move.2 ≠ "anna") ∧
      (runRequests .sample .empty pre).AliasesFollow (runRequests .sample .empty annaIsBenIsCarol)
        "project" "anna" (follow later t) ∧
      ((runRequests .sample .empty (pre ++ [.mergeSubjects "project" "anna" t])).resolves? "project"
          tombstoneKind "anna" = some t ↔
        ∀ canonical ∈ (runRequests .sample .empty pre).resolves? "project" tombstoneKind "anna",
          canonical = "anna" ∨ canonical = t) ∧
      ((runRequests .sample .empty annaIsBenIsCarol).resolves? "project" tombstoneKind "anna" =
          some (follow later t) ↔
        ∀ canonical ∈ (runRequests .sample .empty pre).resolves? "project" tombstoneKind "anna",
          canonical = "anna" ∨ follow later canonical = follow later t) := by
  refine ⟨by decide +kernel, aliases_follow_memory ?_ ?_⟩
  · simp [annaIsBenIsCarol, annaIsBen, namedEvent, Request.KeepsSubjects]
  · have hmerges : (runRequests .sample .empty annaIsBenIsCarol).merges "project" =
        [("anna", "ben"), ("ben", "carol")] := by decide +kernel
    rw [hmerges]
    exact ⟨[], "ben", [("ben", "carol")], rfl, by simp⟩

/-- Anna's name was used again, and merged into Carol. -/
def annaIsCarol : List Request :=
  annaIsBen ++ [namedEvent 2 "anna", .mergeSubjects "project" "anna" "carol"]

/-- The tombstone of a name that was used again leads to the first target of its merges; the memory
its last merge moved is with the second. -/
theorem tombstone_outlives_reuse :
    (runRequests .sample .empty annaIsCarol).merges "project" =
        [("anna", "ben"), ("anna", "carol")] ∧
      (∃ e ∈ (runRequests .sample .empty annaIsCarol).ledger.events,
        e.id = 2 ∧ e.scope = ⟨"project", "carol"⟩) ∧
      (runRequests .sample .empty annaIsCarol).resolves? "project" tombstoneKind "anna" =
        some "ben" := by
  decide +kernel

end Memory

end Haki
