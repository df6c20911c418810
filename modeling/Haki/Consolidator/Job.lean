import Haki.Consolidator.Apply

/-!
# Processing a consolidate job

`_process_job`: the write gate over an extractor's answer, the anti-echo gate,
the application of the surviving candidates event by event, and the derived
index columns of the events.  Locks do not appear: a job runs with the write
lock of its subjects held, so its steps are sequential.
-/

namespace Haki

open Data Control

/-! ## Write gate -/

/-- `ANTI_ECHO_TRACE_LOOKBACK`. -/
def antiEchoTraceLookback : Nat := 20

/-- `ANTI_ECHO_MAX_DISTANCE`. -/
def antiEchoMaxDistance : ℚ := semanticMatchMaxDistance

/-- `EXISTING_FACTS_FILTER_THRESHOLD`. -/
def existingFactsFilterThreshold : Nat := 40

/-- `EXISTING_FACTS_TOP_K`. -/
def existingFactsTopK : Nat := 40

/-- `_imperative_directive_reason`. -/
def imperativeDirectiveReason (env : Env) (candidate : Candidate) : Option RejectReason :=
  let text := " ".intercalate [candidate.predicate, canonical candidate.value,
    canonical candidate.qualifiers, candidate.evidenceSpan.getD ""]
  if env.matchesDirective text then some .imperativeDirective else none

/-- `_untrusted_instruction_reason`: a durable instruction is only born from the subject's own
channel or the agent's tooling. -/
def untrustedInstructionReason (event : Event) (candidate : Candidate) : Option RejectReason :=
  if candidate.factKind ≠ some .instruction then none
  else if OriginTrust.semiTrusted.rank ≤ event.originTrust.rank then none
  else some .untrustedInstruction

/-- `_recently_served_fact_ids`. -/
def recentlyServedFactIds (db : Db) (scope : Scope) : List FactId :=
  (((db.contextTraces.filter fun t ↦ t.scope = scope).insertionSort
    fun t u ↦ u.createdAt ≤ t.createdAt).take antiEchoTraceLookback).flatMap ContextTrace.factIds

/-- `_echo_reject_reason`: near a recently served fact, and repeating a recently served value. -/
def echoRejectReason (env : Env) (db : Db) (scope : Scope) (embedding : Embedding)
    (candidateValue : Dict) : Option RejectReason :=
  let servedIds := recentlyServedFactIds db scope
  let served := db.facts.rows.filter fun f ↦ f.id ∈ servedIds
  let distances := served.filterMap fun f ↦ f.embedding.map fun v ↦ env.cosineDistance v embedding
  match (distances.insertionSort (· ≤ ·)).head? with
  | none => none
  | some distance =>
    if canonical candidateValue ∉ served.map fun f ↦ canonical f.value then none
    else if distance ≤ antiEchoMaxDistance then some .echoOfContext
    else none

/-! ## One event -/

/-- `_record_rejection`. -/
def recordRejection (result : JobResult) (reason : RejectReason) : JobResult :=
  { result with
    rejected := result.rejected + 1
    rejectedWithReason := Function.update result.rejectedWithReason reason
      (result.rejectedWithReason reason + 1) }

/-- Why the write gate drops a candidate, if it does. -/
def gateReason (env : Env) (event : Event) (candidate : Candidate) : Option RejectReason :=
  (imperativeDirectiveReason env candidate).or (untrustedInstructionReason event candidate)

/-- The candidates the write gate lets through, in order. -/
def admitted (env : Env) (event : Event) (raws : List RawCandidate) : List Candidate :=
  raws.filterMap fun
    | .invalid | .reject _ => none
    | .valid candidate => if (gateReason env event candidate).isNone then some candidate else none

theorem mem_admitted {env : Env} {event : Event} {raws : List RawCandidate} {candidate : Candidate} :
    candidate ∈ admitted env event raws ↔
      .valid candidate ∈ raws ∧ gateReason env event candidate = none := by
  rw [admitted, List.mem_filterMap]
  constructor
  · rintro ⟨raw, hraw, h⟩
    cases raw with
    | invalid => cases h
    | reject reason => cases h
    | valid admitted =>
      obtain ⟨hgate, h⟩ := Option.ite_none_right_eq_some.mp h
      obtain rfl := Option.some.inj h
      exact ⟨hraw, Option.isNone_iff_eq_none.mp hgate⟩
  · rintro ⟨hraw, hgate⟩
    exact ⟨_, hraw, if_pos (Option.isNone_iff_eq_none.mpr hgate)⟩

/-- The counters after the write gate has seen one raw candidate. -/
def countGate (env : Env) (event : Event) (result : JobResult) : RawCandidate → JobResult
  | .invalid => { result with rejected := result.rejected + 1 }
  | .reject reason => recordRejection result reason
  | .valid candidate =>
    match gateReason env event candidate with
    | some reason => recordRejection result reason
    | none => result

/-- What the extractor is shown of a fact. -/
structure FactView where
  predicate : String
  value : Dict
  validFrom : Option Timestamp

/-- An extraction provider, on one event; `none` when it fails. -/
abbrev Extractor := Event → List FactView → Option (List RawCandidate)

/-- `_relevant_existing_facts`. -/
def relevantExistingFacts (env : Env) (db : Db) (scope : Scope)
    (queryEmbedding : Option Embedding) : List Fact :=
  let allActive := db.facts.rows.filter fun f ↦ f.scope = scope ∧ f.status = .active
  match queryEmbedding with
  | none => allActive
  | some query =>
    if allActive.length ≤ existingFactsFilterThreshold then allActive
    else
      (((allActive.filterMap fun f ↦ f.embedding.map fun v ↦
        (f, env.cosineDistance v query)).insertionSort fun a b ↦ a.2 ≤ b.2).take
          existingFactsTopK).map Prod.fst

/-- The embedding of a candidate. -/
def candidateEmbedding (env : Env) (candidate : Candidate) : Embedding :=
  env.embed (searchText candidate.predicate candidate.value)

/-- Why the anti-echo gate drops an admitted candidate, if it does.  A supersede is never an
echo. -/
def antiEchoReason (env : Env) (event : Event) (db : Db) (candidate : Candidate) :
    Option RejectReason :=
  if candidate.action = .supersede then none
  else echoRejectReason env db event.scope (candidateEmbedding env candidate) candidate.value

/-- One admitted candidate: the anti-echo gate, then the adjudicator. -/
def applyAdmitted (env : Env) (event : Event) (state : Db × JobResult) (candidate : Candidate) :
    Except LedgerError (Db × JobResult) :=
  match antiEchoReason env event state.1 candidate with
  | some reason => .ok (state.1, recordRejection state.2 reason)
  | none =>
    applyCandidate env state.1 candidate (candidateEmbedding env candidate) event state.2

/-- `EPISODE_TEXT_CHARS`. -/
def episodeTextChars : Nat := 4000

/-- `episode_text`. -/
def episodeText (kind : String) (payload : Dict) : String :=
  String.ofList ((kind ++ " " ++ payload.dumps .default).toList.take episodeTextChars)

/-- The up-front pass: an event without an embedding gets the one of its plain text. -/
def embedEvent (env : Env) (db : Db) (event : Event) : Db :=
  if event.embedding.isSome then db
  else
    let text := episodeText event.kind event.payload
    { db with events := db.events.update event.id fun e ↦
        { e with embedding := some (env.embed text), indexText := some text } }

/-- Key merging: the facts an event touched are folded into its index. -/
def indexTouchedFacts (env : Env) (db : Db) (event : Event) : Db :=
  let touched := db.facts.rows.filter fun f ↦ event.id ∈ f.sourceEventIds
  if touched.isEmpty then db
  else
    let factsText := "; ".intercalate (touched.map fun f ↦ searchText f.predicate f.value)
    let text := episodeText event.kind event.payload ++ " FACTS: " ++ factsText
    { db with events := db.events.update event.id fun e ↦
        { e with embedding := some (env.embed text), indexText := some text } }

/-- The view of the ledger the extractor gets for an event. -/
def existingViews (env : Env) (db : Db) (event : Event) : List FactView :=
  let row := (db.events.get? event.id).getD event
  (relevantExistingFacts env db event.scope row.embedding).map fun f ↦
    ⟨f.predicate, f.value, f.validFrom⟩

/-- One round of the event loop. -/
def processEvent (env : Env) (extract : Extractor) (state : Db × JobResult) (event : Event) :
    Except LedgerError (Db × JobResult) := do
  let raws ← orRaise .provider (extract event (existingViews env state.1 event))
  let result := raws.foldl (countGate env event) state.2
  let candidates := admitted env event raws
  if candidates.isEmpty then pure (state.1, result)
  else
    let (db, result) ← candidates.foldlM (applyAdmitted env event) (state.1, result)
    pure (indexTouchedFacts env db event, result)

/-- The events of a job in chronological order, restricted to `only` when it is given. -/
def jobEvents (db : Db) (eventIds : List EventId) (only : Option (List EventId)) : List Event :=
  ((db.events.rows.filter fun e ↦ e.id ∈ eventIds).insertionSort fun d e ↦
      d.occurredAt < e.occurredAt ∨ (d.occurredAt = e.occurredAt ∧ d.id ≤ e.id)).filter
    fun e ↦ match only with
      | some ids => e.id ∈ ids
      | none => true

/-- `_process_job`. -/
def processJob (env : Env) (extract : Extractor) (db : Db) (eventIds : List EventId)
    (only : Option (List EventId)) : Except LedgerError (Db × JobResult) :=
  let events := jobEvents db eventIds only
  events.foldlM (processEvent env extract) (events.foldl (embedEvent env) db, {})

end Haki
