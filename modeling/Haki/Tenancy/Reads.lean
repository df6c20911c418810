import Haki.Api.Context
import Haki.Context.Servable
import Haki.Tenancy.Isolated

/-!
# Assembling reads one project only

`build_context` on what some projects see of the memory builds the packet it
builds on the memory, for a subject of one of them (`buildContext_only`), and
every fact in it was born of an event of the project (`buildContext_owned`).
The candidates are filtered by scope; the members of a contested set and the
event of a chunk are loaded by primary key alone.
-/

namespace Haki

open Data Control

variable {owner : EventId → String} {keep : String → Bool} {reader : Reader}
  {request : ContextRequest}

section

variable {db : Db}

/-! ## Facts -/

theorem factsInScope_only (hk : keep request.scope.projectId = true) :
    factsInScope reader request (db.only keep) = factsInScope reader request db := by
  refine congrArg (List.map _) (filter_filter_of_imp fun f _ hf ↦ visible_of_eq hk ?_)
  exact congrArg Scope.projectId (of_decide_eq_true hf).1

theorem factCandidates_only (hk : keep request.scope.projectId = true) :
    factCandidates reader request (db.only keep) = factCandidates reader request db := by
  rw [factCandidates, factCandidates, vectorTop, vectorTop, ftsTop, ftsTop, factsInScope_only hk]

theorem mem_factCandidates {id : FactId} (h : id ∈ factCandidates reader request db) :
    ∃ f ∈ db.facts, f.id = id ∧ f.scope = request.scope := by
  obtain ⟨row, htop, rfl⟩ := List.mem_map.mp h
  have hscope : row ∈ factsInScope reader request db := by
    rcases List.mem_append.mp htop with htop | htop
    · exact mem_of_mem_topK htop
    · exact (List.mem_filter.mp (mem_of_mem_topK htop)).1
  obtain ⟨f, hf, rfl⟩ := List.mem_map.mp hscope
  obtain ⟨hf, hfilters⟩ := List.mem_filter.mp hf
  exact ⟨f, hf, rfl, (of_decide_eq_true hfilters).1⟩

theorem factRows_only (hk : keep request.scope.projectId = true) :
    factRows reader request (db.only keep) = factRows reader request db := by
  have hrows : ((db.only keep).facts.rows.filter fun f ↦ f.id ∈ factCandidates reader request db) =
      db.facts.rows.filter fun f ↦ f.id ∈ factCandidates reader request db := by
    refine filter_filter_of_imp fun f hf hid ↦ visible_of_eq hk ?_
    obtain ⟨g, hg, hgid, hscope⟩ := mem_factCandidates (of_decide_eq_true hid)
    obtain rfl := Db.eq_of_id_eq hg hf hgid
    exact congrArg Scope.projectId hscope
  rw [factRows, factRows, factCandidates_only hk, hrows]

/-! ## Conflicts -/

theorem openConflictSets_only (hk : keep request.scope.projectId = true) :
    (db.only keep).openConflictSets request.scope = db.openConflictSets request.scope :=
  filter_filter_of_imp fun _ _ hs ↦
    visible_of_eq hk (congrArg Scope.projectId (of_decide_eq_true hs).1)

/-- The members of the open sets of a scope were born of events of its project. -/
theorem openConflictSets_members (ho : db.Owned owner) {s : ConflictSet}
    (hs : s ∈ db.openConflictSets request.scope) :
    ∀ id ∈ s.factIds, owner id.event = request.scope.projectId := by
  obtain ⟨hs, hopen⟩ := List.mem_filter.mp hs
  have hscope : s.scope = request.scope := (of_decide_eq_true hopen).1
  rw [← hscope]
  exact (ho.conflictSets s hs).members

theorem quarantinedRows_only (ho : db.Owned owner) (hk : keep request.scope.projectId = true) :
    quarantinedRows (db.only keep) (db.openConflictSets request.scope) =
      quarantinedRows db (db.openConflictSets request.scope) := by
  refine filter_filter_of_imp fun f hf hc ↦ visible_of_eq hk ?_
  obtain ⟨s, hs, hid⟩ := List.mem_flatMap.mp (of_decide_eq_true hc).1
  exact (ho.facts f hf).born.symm.trans
    (openConflictSets_members ho (List.mem_filter.mp hs).1 f.id hid)

theorem servedContestedIds_owner (ho : db.Owned owner) {rowIds : List FactId} {id : FactId}
    (h : id ∈ servedContestedIds (db.openConflictSets request.scope) rowIds) :
    owner id.event = request.scope.projectId := by
  obtain ⟨s, hs, hid⟩ := List.mem_flatMap.mp h
  obtain ⟨member, -, hs⟩ := List.mem_filterMap.mp (List.mem_filter.mp hs).1
  have hcontested := List.mem_reverse.mp (List.mem_of_find?_eq_some hs)
  exact openConflictSets_members ho (List.mem_filter.mp hcontested).1 id hid

theorem contestedRow_only (ho : db.Owned owner) (hk : keep request.scope.projectId = true)
    (rowIds : List FactId) :
    contestedRow (db.only keep) (db.openConflictSets request.scope) rowIds =
      contestedRow db (db.openConflictSets request.scope) rowIds := by
  funext id
  rw [contestedRow, contestedRow]
  split
  · next hid => exact fact?_only ho ((congrArg keep (servedContestedIds_owner ho hid)).trans hk)
  · rfl

end

/-! ## Episodes -/

section

variable {m : Memory}

theorem chunksInScope_only (hk : keep request.scope.projectId = true) :
    chunksInScope reader request (m.only keep).store = chunksInScope reader request m.store :=
  filter_filter_of_imp fun _ _ hc ↦
    visible_of_eq hk (congrArg Scope.projectId (of_decide_eq_true hc).1)

theorem mem_episodeCandidates {store : Store} {id : ChunkId}
    (h : id ∈ episodeCandidates reader request store) :
    ∃ c ∈ store.episodeChunks, c.id = id ∧ c.scope = request.scope := by
  obtain ⟨c, htop, rfl⟩ := List.mem_map.mp h
  have hscope : c ∈ chunksInScope reader request store := by
    rcases List.mem_append.mp htop with htop | htop
    · exact mem_of_mem_topK htop
    · exact (List.mem_filter.mp (mem_of_mem_topK htop)).1
  obtain ⟨hc, hfilters⟩ := List.mem_filter.mp hscope
  exact ⟨c, hc, rfl, (of_decide_eq_true hfilters).1⟩

theorem episodeRows_only (ho : m.Owned owner) (hk : keep request.scope.projectId = true) :
    episodeRows reader request (m.only keep).store = episodeRows reader request m.store := by
  have hcandidates : episodeCandidates reader request (m.only keep).store =
      episodeCandidates reader request m.store := by
    rw [episodeCandidates, episodeCandidates, episodeVectorTop, episodeVectorTop, episodeFtsTop,
      episodeFtsTop, chunksInScope_only hk]
  have hscope : ∀ c ∈ m.episodeChunks, c.id ∈ episodeCandidates reader request m.store →
      c.scope = request.scope := by
    intro c hc hid
    obtain ⟨d, hd, hdid, hscope⟩ := mem_episodeCandidates hid
    obtain rfl : d = c := Table.eq_of_key_eq hd hc hdid
    exact hscope
  have hrows : ((m.only keep).store.episodeChunks.rows.filter fun c ↦
        c.id ∈ episodeCandidates reader request m.store) =
      m.store.episodeChunks.rows.filter fun c ↦
        c.id ∈ episodeCandidates reader request m.store :=
    filter_filter_of_imp fun c hc hid ↦ visible_of_eq hk <|
      congrArg Scope.projectId (hscope c hc (of_decide_eq_true hid))
  have hrow : ∀ c ∈ m.store.episodeChunks.rows.filter fun c ↦
        c.id ∈ episodeCandidates reader request m.store,
      episodeRow? reader request (m.only keep).store c =
        episodeRow? reader request m.store c := by
    intro c hc
    obtain ⟨hc, hid⟩ := List.mem_filter.mp hc
    refine congrArg (Option.map _) (Table.get?_filter fun e he heid ↦ visible_of_eq hk ?_)
    refine (ho.ledger.events e he).symm.trans ((congrArg owner heid).trans ?_)
    rw [ho.episodeChunks c hc, hscope c hc (of_decide_eq_true hid)]
  rw [episodeRows, episodeRows, hcandidates, hrows, List.filterMap_congr hrow]

/-! ## The packet -/

theorem gatedRows_only (ho : m.Owned owner) (hk : keep request.scope.projectId = true) :
    gatedRows reader (m.only keep).store request = gatedRows reader m.store request := by
  have hconflicts : (m.only keep).store.ledger.openConflictSets request.scope =
      m.ledger.openConflictSets request.scope := openConflictSets_only hk
  have hrows : factRows reader request (m.only keep).store.ledger =
      factRows reader request m.ledger := factRows_only hk
  have hquarantined : quarantinedRows (m.only keep).store.ledger
        (m.ledger.openConflictSets request.scope) =
      quarantinedRows m.ledger (m.ledger.openConflictSets request.scope) :=
    quarantinedRows_only ho.ledger hk
  rw [gatedRows, gatedRows, hconflicts, hrows, episodeRows_only ho hk, hquarantined]
  rfl

theorem packingCall_only (ho : m.Owned owner) (hk : keep request.scope.projectId = true) :
    packingCall reader (m.only keep).store request = packingCall reader m.store request := by
  have hconflicts : (m.only keep).store.ledger.openConflictSets request.scope =
      m.ledger.openConflictSets request.scope := openConflictSets_only hk
  have hrows : factRows reader request (m.only keep).store.ledger =
      factRows reader request m.ledger := factRows_only hk
  have hrow : contestedRow (m.only keep).store.ledger (m.ledger.openConflictSets request.scope) =
      contestedRow m.ledger (m.ledger.openConflictSets request.scope) :=
    funext fun rowIds ↦ contestedRow_only ho.ledger hk rowIds
  rw [packingCall, packingCall, hconflicts, hrows, hrow]
  rfl

theorem packetOf_only (hk : keep request.scope.projectId = true) (packed : Packing) :
    packetOf reader (m.only keep).store request packed =
      packetOf reader m.store request packed := by
  have halias : fragmentationAlias (m.only keep).store request.scope =
      fragmentationAlias m.store request.scope :=
    find?_filter_of_imp fun a _ ha ↦ visible_of_eq hk (of_decide_eq_true ha).1
  rw [packetOf, packetOf, warningsOf, warningsOf, halias]

/-- **Reads.**  The packet for a subject of the projects is built from what they see. -/
theorem buildContext_only (ho : m.Owned owner) (hk : keep request.scope.projectId = true) :
    buildContext reader (m.only keep).store request = buildContext reader m.store request := by
  rw [buildContext, buildContext, gatedRows_only ho hk, packingCall_only ho hk]
  simp only [packetOf_only hk]

/-- The facts of a packet were born of events of the project it was built for. -/
theorem buildContext_owned (ho : m.Owned owner) {built : BuiltContext}
    (h : buildContext reader m.store request = .ok built) :
    ∀ printed ∈ built.packet.facts, owner printed.item.id.event = request.scope.projectId := by
  intro printed hprinted
  obtain ⟨f, ref, conflict, hservable, hitem⟩ := servable_of_mem h hprinted
  rw [hitem]
  show owner f.id.event = _
  cases hservable with
  | ranked row mem eq =>
    obtain ⟨hf, hscope, -⟩ := mem_factRows (mem_gatedRows mem).1
    rw [← eq, (ho.ledger.facts row.fact hf).born, hscope]
  | sibling sibling =>
    obtain ⟨row, s, -, hs, hid, -, -⟩ := sibling
    obtain ⟨hmem, hscope, -⟩ := contestedConflict_some hs
    rw [(ho.ledger.conflictSets s hmem).members f.id hid, hscope]

end

/-! ## Context calls -/

section

variable {env : Env} {p : String} {m : Memory}

/-- A context call stores the trace of the packet it answers with. -/
theorem Memory.context_eq_ok (env : Env) {reader : Reader} {call : ContextCall}
    {built : BuiltContext} {m' : Memory} (h : m.context reader call = .ok (built, m')) :
    ∃ subjectId, buildContext reader m.store (call.request subjectId) = .ok built ∧
      Request.exec env m (.context
        (built.trace call.traceId ⟨call.projectId, subjectId⟩ call.now)) = .ok m' := by
  obtain ⟨subjectId, -, h⟩ := bind_eq_ok.mp h
  obtain ⟨built', hbuilt, h⟩ := bind_eq_ok.mp h
  cases h
  exact ⟨subjectId, mapError_eq_ok.mp hbuilt, rfl⟩

theorem Memory.context_stays (env : Env) {reader : Reader} {call : ContextCall}
    {built : BuiltContext} {m' : Memory} (hp : call.projectId = p)
    (hu : m.ledger.UniqueActive) (ho : m.Owned owner)
    (h : m.context reader call = .ok (built, m')) : m.Stays owner p m' := by
  obtain ⟨subjectId, hbuilt, h⟩ := Memory.context_eq_ok env h
  refine Request.exec_stays (show Request.Of owner p (.context _) from ⟨hp, fun id hid ↦ ?_⟩)
    hu ho h
  obtain ⟨printed, hprinted, rfl⟩ := List.mem_map.mp hid
  exact (buildContext_owned ho hbuilt printed hprinted).trans hp

theorem contextSubject_only (hk : keep p = true) (aliases : Table SubjectAlias)
    (subject : SubjectRef) :
    contextSubject (aliases.filter (visible keep)) p subject =
      contextSubject aliases p subject := by
  cases subject with
  | id subjectId => rfl
  | byAlias kind value =>
    rw [contextSubject, contextSubject, ← resolveAlias_only hk]
    cases resolveAlias aliases p kind value none false <;> rfl

theorem Memory.context_only (ho : m.Owned owner) (reader : Reader) {call : ContextCall}
    (hk : keep call.projectId = true) :
    (m.context reader call).map (Prod.map id (Memory.only keep)) =
      (m.only keep).context reader call := by
  have haliases : contextSubject (m.only keep).subjectAliases call.projectId call.subject =
      contextSubject m.subjectAliases call.projectId call.subject :=
    contextSubject_only hk m.subjectAliases call.subject
  rw [Memory.context, Memory.context, haliases]
  cases contextSubject m.subjectAliases call.projectId call.subject with
  | error _ => rfl
  | ok subjectId =>
    simp only [ok_bind]
    rw [buildContext_only ho hk]
    cases buildContext reader m.store (call.request subjectId) with
    | error _ => rfl
    | ok built =>
      have hv : visible keep (built.trace call.traceId (call.request subjectId).scope call.now) =
          true := hk
      refine congrArg (fun m' ↦ Except.ok (built, m')) ?_
      rw [Memory.only, Memory.only, Db.only, Db.only]
      dsimp only
      rw [List.filter_append, List.filter_cons_of_pos hv, List.filter_nil]

end

end Haki
