import Haki.Consolidator.Lookup
import Haki.Data.Split

/-!
# Applying one candidate

`_apply_candidate`, in three named parts that follow the source from top to
bottom:

* `matchCandidate` — the duplicate check, the value-came-back rule, the target
  lookup and the same-value short-circuit;
* `holdCandidate` — the origin holdback;
* `writeCandidate` — carry-forward, insertion, and the activation branches
  (supersede, event form, contradiction, overflow, first value).

The source resolves the existing fact twice when a superseded value comes
back; so does `matchCandidate`.
-/

namespace Haki

open Data

/-- The counters `_process_job` reports. -/
structure JobResult where
  created : Nat := 0
  superseded : Nat := 0
  conflicts : Nat := 0
  conflictCapped : Nat := 0
  reclassifiedEvent : Nat := 0
  supersedeWithoutExisting : Nat := 0
  duplicates : Nat := 0
  reinforced : Nat := 0
  quarantined : Nat := 0
  rejected : Nat := 0
  rejectedWithReason : RejectReason → Nat := fun _ ↦ 0

/-- `CONFLICT_SET_MAX_MEMBERS`. -/
def conflictSetMaxMembers : Nat := 2

/-! ## Provenance down to the chunk -/

/-- Every run of white space becomes one blank. -/
def collapseSpace : List Char → List Char
  | [] => []
  | c :: cs =>
    if isSpace c then
      match collapseSpace cs with
      | d :: ds => if d = ' ' then d :: ds else ' ' :: d :: ds
      | [] => [' ']
    else c :: collapseSpace cs

/-- `_normalize_for_span_match`: U+2019 reads as an apostrophe. -/
def normalizeForSpanMatch (env : Env) (text : String) : String :=
  env.casefold (String.ofList (strip isSpace (collapseSpace (text.toList.map fun c ↦
    if c.toNat = 8217 then Char.ofNat 39 else c))))

/-- `_resolve_source_chunk`.  The chunks of an event are cut from its payload before any of its
candidates is applied, and their text never changes, so reading them is computing them. -/
def resolveSourceChunk (env : Env) (event : Event) (evidenceSpan : Option String) :
    Option ChunkId :=
  match env.chunkPayload event.kind event.payload with
  | [] => none
  | [_] => some ⟨event.id, 0⟩
  | chunks =>
    let span := normalizeForSpanMatch env (evidenceSpan.getD "")
    if span = "" then none
    else
      match chunks.zipIdx.filter fun c ↦
          (normalizeForSpanMatch env c.1).toList.tails.any fun t ↦ span.toList.isPrefixOf t with
      | [c] => some ⟨event.id, c.2⟩
      | _ => none

/-! ## Reinforcement -/

/-- A fact re-asserted by a new event.  The clock only advances when the event's origin ranks at
least as high as the fact's, and never moves back. -/
def Fact.reinforcedBy (fact : Fact) (event : Event) : Fact :=
  { fact with
    reinforcementCount := fact.reinforcementCount + 1
    lastReinforcedAt :=
      if fact.originTrust.rank ≤ event.originTrust.rank ∧
          (fact.lastReinforcedAt.all fun t ↦ t < event.occurredAt) then
        some event.occurredAt
      else fact.lastReinforcedAt
    sourceEventIds := fact.sourceEventIds ++ [event.id] }

@[simp] theorem Fact.reinforcedBy_id (f : Fact) (event : Event) : (f.reinforcedBy event).id = f.id :=
  rfl

/-- `_reinforce_or_count_duplicate`. -/
def reinforceOrCountDuplicate (db : Db) (fact : Fact) (event : Event) (result : JobResult) :
    Db × JobResult :=
  if fact.status ≠ .active ∨ event.id ∈ fact.sourceEventIds then
    (db, { result with duplicates := result.duplicates + 1 })
  else
    (db.updateFact fact.id (·.reinforcedBy event),
      { result with reinforced := result.reinforced + 1 })

/-! ## Matching -/

/-- What the read side finds: a fact that already says it, or the fact to adjudicate against. -/
inductive Match where
  | duplicate (fact : Fact)
  | against (candidate : Candidate) (existing : Option Fact)

/-- The target lookup and the same-value short-circuit. -/
def matchTarget (env : Env) (db : Db) (candidate : Candidate) (embedding : Embedding)
    (event : Event) : Match × Db :=
  let (resolved, db) := db.resolveExistingFact env event.scope candidate.targetPredicate
    candidate.qualifiers embedding
  let existing := resolved.or <|
    if candidate.action = .create then
      db.findQualifierAmbiguousActiveFact event.scope candidate.targetPredicate
        candidate.qualifiers candidate.value
    else none
  match existing with
  | some fact =>
    if candidate.action = .create ∧ fact.memoryForm ≠ .event ∧
        canonical fact.value = canonical candidate.value then
      (.duplicate fact, db)
    else (.against candidate (some fact), db)
  | none => (.against candidate none, db)

/-- The duplicate check first: a value that comes back while another one is active is a
supersede, whatever the extractor labelled it. -/
def matchCandidate (env : Env) (db : Db) (candidate : Candidate) (embedding : Embedding)
    (event : Event) : Match × Db :=
  match db.findDuplicate event.scope candidate.predicate candidate.value candidate.qualifiers with
  | none => matchTarget env db candidate embedding event
  | some duplicate =>
    if duplicate.status = .active then (.duplicate duplicate, db)
    else
      match db.resolveExistingFact env event.scope candidate.targetPredicate
          candidate.qualifiers embedding with
      | (none, db) => (.duplicate duplicate, db)
      | (some _, db) => matchTarget env db { candidate with action := .supersede } embedding event

/-! ## Classes of the new row -/

/-- What the new row takes from the candidate, the matched fact or the defaults. -/
structure Classes where
  factKind : FactKind
  volatility : Volatility
  temporalRange : Option TemporalRange
  memoryForm : MemoryForm
  qualifiers : Dict

/-- The fact omitted classes are inherited from: the one a supersede replaces. -/
def inheritedFrom (candidate : Candidate) (existing : Option Fact) : Option Fact :=
  if candidate.action = .supersede then existing else none

/-- Third-party content is stamped with who said it. -/
def attributed (qualifiers : Dict) (event : Event) : Dict :=
  if event.originTrust = .thirdParty then
    qualifiers.set "attributed_to" (.str (match event.actorId with
      | some actor => if actor = "" then "third_party" else actor
      | none => "third_party"))
  else qualifiers

/-- The candidate's own class, else the inherited one, else the default. -/
def factKindOf (candidate : Candidate) (existing : Option Fact) : FactKind :=
  (candidate.factKind.or ((inheritedFrom candidate existing).map Fact.factKind)).getD .attribute

/-- As for `factKindOf`. -/
def volatilityOf (candidate : Candidate) (existing : Option Fact) : Volatility :=
  (candidate.volatility.or ((inheritedFrom candidate existing).map Fact.volatility)).getD .stable

/-- Always the matched identity's form: only an overflowing conflict changes it. -/
def memoryFormOf (candidate : Candidate) (existing : Option Fact) : MemoryForm :=
  (existing.map Fact.memoryForm).getD (candidate.memoryForm.getD .state)

/-- The declared or inherited period, else what a relative expression in the value means. -/
def temporalRangeOf (env : Env) (candidate : Candidate) (existing : Option Fact) (event : Event) :
    Except LedgerError (Option TemporalRange) :=
  match candidate.temporalRange.or ((inheritedFrom candidate existing).bind Fact.temporalRange) with
  | some range => .ok (some range)
  | none => do
    let dates ← orRaise .dateError (env.datesIn candidate.value)
    if dates.isEmpty then
      orRaise .dateError (env.resolveRelativeRange candidate.value event.occurredAt)
    else pure none

/-- Typology, volatility, period, memory form and attribution of the new row. -/
def classesOf (env : Env) (candidate : Candidate) (existing : Option Fact) (event : Event) :
    Except LedgerError Classes := do
  let temporalRange ← temporalRangeOf env candidate existing event
  pure
    { factKind := factKindOf candidate existing
      volatility := volatilityOf candidate existing
      temporalRange := temporalRange
      memoryForm := memoryFormOf candidate existing
      qualifiers := attributed candidate.qualifiers event }

/-- The arguments `create_fact` is called with. -/
def draftOf (env : Env) (candidate : Candidate) (classes : Classes) (event : Event)
    (value : Dict) (embedding : Embedding) : Except LedgerError FactDraft := do
  let observedAt ← orRaise .dateError (env.observedAtOf value classes.temporalRange)
  pure
    { scope := event.scope
      predicate := candidate.predicate
      value := value
      qualifiers := classes.qualifiers
      validFrom := some event.occurredAt
      sourceEventIds := [event.id]
      factKind := classes.factKind
      volatility := classes.volatility
      originTrust := event.originTrust
      memoryForm := classes.memoryForm
      temporalRange := classes.temporalRange
      observedAt := observedAt
      evidenceSpan := candidate.evidenceSpan
      sourceChunkId := resolveSourceChunk env event candidate.evidenceSpan
      embedding := embedding
      searchText := searchText candidate.predicate value }

/-! ## Origin holdback -/

/-- The event ranks below the matched fact, or is untrusted. -/
def HeldBack (event : Event) (existing : Option Fact) : Prop :=
  (∃ fact ∈ existing, event.originTrust.rank < fact.originTrust.rank) ∨
    event.originTrust = .untrusted

instance (event : Event) (existing : Option Fact) : Decidable (HeldBack event existing) :=
  inferInstanceAs (Decidable (_ ∨ _))

/-- A conflict set opened while `event` is applied. -/
def newConflictSet (env : Env) (db : Db) (event : Event) (factIds : List FactId)
    (kind : ConflictKind) : ConflictSet :=
  { id := db.freshConflictId event.id
    scope := event.scope
    factIds := factIds
    status := .open
    kind := kind
    createdAt := env.now
    resolvedAt := none }

/-- The candidate is written but stays a candidate, alone in an open quarantine set. -/
def holdCandidate (env : Env) (db : Db) (candidate : Candidate) (classes : Classes)
    (embedding : Embedding) (event : Event) (result : JobResult) :
    Except LedgerError (Db × JobResult) := do
  let draft ← draftOf env candidate classes event candidate.value embedding
  let fact := draft.row (db.freshFactId event.id) env.now
  let db := db.insertFact fact
  let db := db.insertConflictSet (newConflictSet env db event [fact.id] .quarantine)
  pure (db, { result with quarantined := result.quarantined + 1 })

/-! ## Writing -/

/-- Keys the candidate does not restate are carried forward; an explicit null removes a key. -/
def carryForward (candidate : Candidate) (existing : Option Fact) : Dict :=
  match inheritedFrom candidate existing with
  | some fact => Dict.dropNulls (fact.value.merge candidate.value)
  | none => candidate.value

/-- `valid_to` of a replaced fact: the event's time, never before the fact's own start. -/
def closingTime (old : Fact) (event : Event) : Timestamp :=
  match old.validFrom with
  | some start => if event.occurredAt < start then start else event.occurredAt
  | none => event.occurredAt

/-- `action == "supersede"`. -/
def supersedeExisting (env : Env) (db : Db) (id : FactId) (existing : Option Fact)
    (event : Event) (result : JobResult) : Except LedgerError (Db × JobResult) := do
  let (db, result) ← match existing with
    | some old => do
      let db ← transitionFactStatus env.now db old.id .superseded
      let db := db.updateFact old.id fun f ↦ { f with validTo := some (closingTime old event) }
      let db := db.updateFact id fun f ↦ { f with supersedesId := some old.id }
      pure (db, { result with superseded := result.superseded + 1 })
    | none =>
      pure (db, { result with supersedeWithoutExisting := result.supersedeWithoutExisting + 1 })
  let db ← transitionFactStatus env.now db id .active
  pure (db, { result with created := result.created + 1 })

/-- The new fact goes straight to active. -/
def activate (env : Env) (db : Db) (id : FactId) (result : JobResult) :
    Except LedgerError (Db × JobResult) := do
  let db ← transitionFactStatus env.now db id .active
  pure (db, { result with created := result.created + 1 })

/-- A fact of an overflowing identity becomes an occurrence. -/
def Fact.reclassify (fact : Fact) (now : Timestamp) : Fact :=
  { fact with memoryForm := .event, reclassifiedAt := some now }

@[simp] theorem Fact.reclassify_id (f : Fact) (now : Timestamp) : (f.reclassify now).id = f.id := rfl

/-- A third competing value: the whole identity becomes event-form, every member is activated
and the conflict is dissolved. -/
def reclassifyOverflow (env : Env) (db : Db) (id : FactId) (existing : Fact)
    (conflict : ConflictSet) (result : JobResult) : Except LedgerError (Db × JobResult) := do
  match conflict.factIds.find? (· ≠ existing.id) with
  | none => throw .stopIteration
  | some otherId => do
    let other := db.fact? otherId
    let db := db.updateFact existing.id (·.reclassify env.now)
    let db := db.updateFact id (·.reclassify env.now)
    let db ← transitionFactStatus env.now db id .active
    let db ← match other with
      | some other => do
        let db := db.updateFact other.id (·.reclassify env.now)
        if other.status ≠ .active then transitionFactStatus env.now db other.id .active
        else pure db
      | none => pure db
    let db := db.updateConflictSet conflict.id fun s ↦
      { s with
        factIds := s.factIds ++ [id]
        status := .reclassifiedEvent
        resolvedAt := some env.now }
    pure (db, { result with
      created := result.created + 1
      reclassifiedEvent := result.reclassifiedEvent + 1 })

/-- The new fact contradicts an active one: both enter an open conflict set, unless that set is
full already. -/
def contradict (env : Env) (db : Db) (id : FactId) (existing : Fact) (event : Event)
    (result : JobResult) : Except LedgerError (Db × JobResult) :=
  match db.openConflictSet event.scope existing.id with
  | none =>
    .ok (db.insertConflictSet (newConflictSet env db event [existing.id, id] .contradiction),
      { result with conflicts := result.conflicts + 1 })
  | some conflict =>
    if conflictSetMaxMembers ≤ conflict.factIds.length then
      reclassifyOverflow env db id existing conflict result
    else
      .ok (db.updateConflictSet conflict.id fun s ↦ { s with factIds := s.factIds ++ [id] },
        { result with conflicts := result.conflicts + 1 })

/-- The activation branches, for the row just inserted. -/
def activateCandidate (env : Env) (db : Db) (id : FactId) (candidate : Candidate)
    (existing : Option Fact) (memoryForm : MemoryForm) (event : Event) (result : JobResult) :
    Except LedgerError (Db × JobResult) :=
  if candidate.action = .supersede then supersedeExisting env db id existing event result
  else if memoryForm = .event then activate env db id result
  else
    match existing with
    | some old =>
      if canonical old.value ≠ canonical candidate.value then
        contradict env db id old event result
      else activate env db id result
    | none => activate env db id result

/-- The new row and its activation. -/
def writeCandidate (env : Env) (db : Db) (candidate : Candidate) (existing : Option Fact)
    (classes : Classes) (embedding : Embedding) (event : Event) (result : JobResult) :
    Except LedgerError (Db × JobResult) := do
  let draft ← draftOf env candidate classes event (carryForward candidate existing) embedding
  let fact := draft.row (db.freshFactId event.id) env.now
  activateCandidate env (db.insertFact fact) fact.id candidate existing classes.memoryForm event
    result

/-- The candidate is not a duplicate: hold it, or write it. -/
def adjudicate (env : Env) (db : Db) (candidate : Candidate) (existing : Option Fact)
    (embedding : Embedding) (event : Event) (result : JobResult) :
    Except LedgerError (Db × JobResult) := do
  let classes ← classesOf env candidate existing event
  if HeldBack event existing then
    holdCandidate env db candidate classes embedding event result
  else
    writeCandidate env db candidate existing classes embedding event result

/-- `_apply_candidate`. -/
def applyCandidate (env : Env) (db : Db) (candidate : Candidate) (embedding : Embedding)
    (event : Event) (result : JobResult) : Except LedgerError (Db × JobResult) :=
  match matchCandidate env db candidate embedding event with
  | (.duplicate fact, db) => .ok (reinforceOrCountDuplicate db fact event result)
  | (.against candidate existing, db) =>
    adjudicate env db candidate existing embedding event result

end Haki
