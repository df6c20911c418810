import Haki.Models

/-!
# Candidates, errors and the environment of the write path

What the extraction provider returns (`ExtractedFact`), what an operation can
fail with, and the pure functions the write path calls outside its own module:
the embedder, pgvector's distance, chunking, and the date helpers.  The date
helpers and the embedder are arbitrary here; no result depends on what they
return.
-/

namespace Haki

open Data

/-- `REJECT_REASONS`. -/
inductive RejectReason where
  | echoOfContext | systemNoise | configDump | transientState | unsupportedInference
  | agentSelfReference | noEvidenceSpan | imperativeDirective | untrustedInstruction
deriving DecidableEq, Repr

/-- `ExtractedFact.action` of a fact that is not rejected. -/
inductive Action where
  | create
  | supersede
deriving DecidableEq, Repr

/-- A validated `ExtractedFact` that the provider did not mark `reject`. -/
structure Candidate where
  predicate : String
  value : Dict
  qualifiers : Dict := .empty
  action : Action := .create
  supersedesPredicate : Option String := none
  evidenceSpan : Option String := none
  factKind : Option FactKind := none
  volatility : Option Volatility := none
  memoryForm : Option MemoryForm := none
  temporalRange : Option TemporalRange := none

/-- `candidate.supersedes_predicate or candidate.predicate`. -/
def Candidate.targetPredicate (c : Candidate) : String :=
  match c.supersedesPredicate with
  | some q => if q = "" then c.predicate else q
  | none => c.predicate

/-- One item of an extractor's answer: it does not validate as an `ExtractedFact`, or the provider
itself rejects it and says why, or it is a candidate. -/
inductive RawCandidate where
  | invalid
  | reject (reason : RejectReason)
  | valid (candidate : Candidate)

/-- What a ledger operation fails with. -/
inductive LedgerError where
  | factNotFound
  | conflictNotFound
  | conflictAlreadyResolved
  | factNotInConflict
  | conflictKeepDisabled
  | illegalTransition (current target : FactStatus)
  /-- The partial unique index on active state facts refused the write. -/
  | uniqueViolation
  /-- A date outside the calendar, or a phrase without a meaning. -/
  | dateError
  /-- `next(...)` on an exhausted generator. -/
  | stopIteration
  /-- The extraction provider failed. -/
  | provider
deriving DecidableEq, Repr

/-- The answer of a function of the environment, or the error it raised. -/
def orRaise {α : Type} (e : LedgerError) : Option α → Except LedgerError α
  | some a => .ok a
  | none => .error e

theorem orRaise_eq_ok {α : Type} {e : LedgerError} {x : Option α} {a : α} :
    orRaise e x = .ok a ↔ x = some a := by
  cases x <;> simp [orRaise]

theorem orRaise_eq_error {α : Type} {e e' : LedgerError} {x : Option α} :
    orRaise e x = .error e' ↔ x = none ∧ e' = e := by
  cases x <;> simp [orRaise, eq_comm]

/-- The functions the write path calls and the clock of the running transaction. -/
structure Env where
  /-- `func.now()` and `datetime.now()` of the transaction. -/
  now : Timestamp
  /-- `Embedder.embed` on one text. -/
  embed : String → Embedding
  /-- pgvector's `cosine_distance`. -/
  cosineDistance : Embedding → Embedding → ℚ
  /-- `chunk_payload(kind, payload)`. -/
  chunkPayload : String → Dict → List String
  /-- `str.casefold`. -/
  casefold : String → String
  /-- `_dates_in`; `none` when it raises. -/
  datesIn : Dict → Option (List Timestamp)
  /-- `resolve_relative_range`; `none` when it raises. -/
  resolveRelativeRange : Dict → Timestamp → Option (Option TemporalRange)
  /-- `observed_at_of`; `none` when it raises. -/
  observedAtOf : Dict → Option TemporalRange → Option (Option Timestamp)
  /-- Whether one of `_IMPERATIVE_DIRECTIVE_PATTERNS` matches a text. -/
  matchesDirective : String → Bool

/-- The same functions at another time. -/
def Env.at (env : Env) (now : Timestamp) : Env := { env with now := now }

end Haki
