import Haki.Control.Interleave
import Haki.Ledger.Capture

/-!
# Billing side by side

Captures, grants and monthly resets of one organization, each in a database
transaction of its own under READ COMMITTED.  A session reads what is committed
and what it wrote itself.  `_lock_org` refreshes the object of the organization
from the locked row; before that the object may be stale.  A turn that has to
wait, for the lock of the row or for the key of an uncommitted event, is not
taken.

Jobs, aliases, and the rows of other organizations are left out.
-/

namespace Haki

open Control

/-! ## Requests -/

/-- Columns a webhook assigns: `none` is not assigned. -/
structure SubscriptionColumns where
  subscriptionStatus : Option (Option String)
  subscriptionPlan : Option (Option String)
  dodoSubscriptionId : Option (Option String)
deriving DecidableEq, Repr

namespace Organization

/-- `UPDATE organizations` of the assigned columns. -/
def assign (org : Organization) (columns : SubscriptionColumns) : Organization :=
  { org with
    subscriptionStatus := columns.subscriptionStatus.getD org.subscriptionStatus
    subscriptionPlan := columns.subscriptionPlan.getD org.subscriptionPlan
    dodoSubscriptionId := columns.dodoSubscriptionId.getD org.dodoSubscriptionId }

end Organization

/-- What a session is opened for. -/
inductive BillingRequest where
  | capture (batchKey : Option String) (events : List EventIn)
  | grant (amount : Int) (reason : CreditReason) (reference : Option CreditReference)
  /-- A monthly reset, with what its handler assigns before and after it. -/
  | reset (before : SubscriptionColumns) (amount : Int) (reason : CreditReason)
    (reference : Option CreditReference) (after : SubscriptionColumns)

/-- What a session does next. -/
inductive Statement where
  /-- `session.get(Organization, …)`. -/
  | get
  /-- `maybe_grant_lazy_free_credits` up to its grant. -/
  | checkWindow
  /-- The rest of `maybe_grant_lazy_free_credits`, with the time of its check. -/
  | grantFree (now : Timestamp)
  | grantCredits (amount : Int) (reason : CreditReason) (reference : Option CreditReference)
  | resetMonthlyCredits (amount : Int) (reason : CreditReason)
    (reference : Option CreditReference)
  /-- `try_debit_credit`, and the error of a capture that cannot pay. -/
  | tryDebitCredit (reason : CreditReason) (reference : Option CreditReference)
  | assign (columns : SubscriptionColumns)
deriving DecidableEq, Repr

/-! ## States -/

/-- An open transaction. -/
structure BillingSession where
  todo : List Statement
  /-- The object of the organization, once it is loaded. -/
  org : Option Organization
  /-- The events it inserted. -/
  inserted : List EventRow

/-- Where a session stands. -/
inductive BillingPhase where
  | ahead
  | active (session : BillingSession)
  | committed
  /-- What it raised, unless it was cut off. -/
  | rolledBack (error : Option CaptureError)

/-- What a transaction committed. -/
structure Commit (ι : Type) where
  session : ι
  rows : List CreditTransaction
  events : List EventRow

/-- The database, as far as the organization is concerned. -/
structure BillingDb (ι : Type) where
  /-- The committed row of the organization, and its committed transactions. -/
  account : Account
  /-- The session that holds the lock of the row, and what it has written. -/
  held : Option (ι × Account)
  /-- The events, those of open transactions among them. -/
  events : EventStore
  /-- The open transaction an event was inserted by. -/
  writer : EventId → Option ι
  clock : Timestamp
  /-- What was committed, in order. -/
  commits : List (Commit ι)

namespace EventStore

/-- The events without those of a rolled back transaction. -/
def without (store : EventStore) (ids : List EventId) : EventStore where
  rows := store.rows.filter fun row ↦ row.id ∉ ids
  nextId := store.nextId
  keys := store.keys.sublist (List.filter_sublist.map _)
  ids := store.ids.sublist (List.filter_sublist.map _)
  drawn row h := store.drawn row (List.mem_of_mem_filter h)

end EventStore

namespace BillingDb

variable {ι : Type} [DecidableEq ι] (db : BillingDb ι) (i : ι)

/-- The row of the organization as a session sees it. -/
def view : Account :=
  match db.held with
  | some (j, a) => if j = i then a else db.account
  | none => db.account

/-- The row of the organization once a session holds its lock: `none` while it has to wait. -/
def lock : Option Account :=
  match db.held with
  | some (j, a) => if j = i then some a else none
  | none => some db.account

/-- The database after a session wrote the row it holds. -/
def hold (a : Account) : BillingDb ι := { db with held := some (i, a) }

/-- A session lets go of the row, when it holds it. -/
def release : Option (ι × Account) := db.held.filter fun h ↦ h.1 ≠ i

/-- No event of an open transaction has one of the keys. -/
def Unclaimed (keys : List EventKey) : Prop :=
  ∀ row ∈ db.events.rows, row.eventKey ∈ keys → db.writer row.id = none

instance (keys : List EventKey) : Decidable (db.Unclaimed keys) :=
  inferInstanceAs (Decidable (∀ row ∈ _, _ → _))

/-- `INSERT` of the events of a capture. -/
def insert (hash : EventContent → String) (batchKey : Option String) (events : List EventIn) :
    BillingDb ι :=
  let new := db.events.returning hash batchKey events
  { db with
    events := db.events.insertAll hash batchKey events
    writer := fun id ↦ if id ∈ new.map EventRow.id then some i else db.writer id }

/-- The events of a session are nobody's any more. -/
def settle : EventId → Option ι := fun id ↦ (db.writer id).filter fun j ↦ j ≠ i

/-- `COMMIT`. -/
def commit (session : BillingSession) : BillingDb ι :=
  { db with
    account := db.view i
    held := db.release i
    writer := db.settle i
    commits := db.commits ++
      [⟨i, (db.view i).transactions.drop db.account.transactions.length, session.inserted⟩] }

/-- `ROLLBACK`. -/
def rollback (session : BillingSession) : BillingDb ι :=
  { db with
    held := db.release i
    events := db.events.without (session.inserted.map EventRow.id)
    writer := db.settle i }

/-- A function of the ledger: it locks the row, refreshes the object from it, and flushes. -/
def underLock (session : BillingSession) (f : Account → Except CreditError Account) :
    Option (BillingDb ι × BillingPhase) :=
  (db.lock i).map fun a ↦
    match f a with
    | .ok a' => (db.hold i a', .active { session with org := some a'.org })
    | .error e => (db.rollback i session, .rolledBack (some (.credits e)))

end BillingDb

/-! ## Turns -/

/-- The organization, and what its server is configured with. -/
structure BillingEnv where
  orgId : String
  hash : EventContent → String
  freeMonthlyCredits : Int

/-- A turn of a session. -/
inductive BillingTurn where
  | open (request : BillingRequest)
  /-- The next statement, or the commit after the last one. -/
  | proceed
  /-- The session dies. -/
  | abort

namespace BillingEnv

variable (env : BillingEnv) {ι : Type} [DecidableEq ι] (i : ι) (db : BillingDb ι)

/-- What a capture does for each result of the organization that is new. -/
def charges (results : List (EventRow × Bool)) : List Statement :=
  (results.filter fun r ↦ !r.2 && r.1.content.orgId = env.orgId).flatMap fun r ↦
    [.get, .checkWindow, .tryDebitCredit .captureDebit (some (.event r.1.id))]

/-- A session opens. -/
def start : BillingRequest → Option (BillingDb ι × BillingPhase)
  | .capture batchKey events =>
    match events.findIdx? fun e ↦ e.subjectId = "" with
    | some index => some (db, .rolledBack (some (.missingScope index)))
    | none =>
      if db.Unclaimed (events.map (EventIn.eventKey env.hash batchKey)) then
        some (db.insert i env.hash batchKey events,
          .active ⟨env.charges (db.events.writeEvents env.hash batchKey events), none,
            db.events.returning env.hash batchKey events⟩)
      else none
  | .grant amount reason reference =>
    some (db, .active ⟨[.get, .grantCredits amount reason reference], none, []⟩)
  | .reset before amount reason reference after =>
    some (db, .active
      ⟨[.get, .assign before, .resetMonthlyCredits amount reason reference, .assign after],
        none, []⟩)

/-- What a statement does to the row it has locked. -/
def ledger (now : Timestamp) : Statement → Account → Except CreditError Account
  | .get, a | .checkWindow, a => .ok a
  | .grantFree checked, a => do
    let granted ← a.grantCredits checked .monthlyFreeGrant none env.freeMonthlyCredits
    pure (granted.stamp checked)
  | .grantCredits amount reason reference, a => a.grantCredits now reason reference amount
  | .resetMonthlyCredits amount reason reference, a =>
    a.resetMonthlyCredits now reason reference amount
  | .tryDebitCredit reason reference, a => a.tryDebitCredit now reason reference
  | .assign columns, a => .ok { a with org := a.org.assign columns }

/-- The next statement of a session, whose other ones are `session.todo`. -/
def execute (session : BillingSession) : Statement → Option (BillingDb ι × BillingPhase)
  | .get => some (db, .active { session with org := some (session.org.getD (db.view i).org) })
  | .checkWindow =>
    if ∃ org ∈ session.org, org.Grantable db.clock then
      some (db, .active { session with todo := .grantFree db.clock :: session.todo })
    else some (db, .active session)
  | statement => db.underLock i session (env.ledger db.clock statement)

/-- What a session can do. -/
def turn : BillingTurn → BillingPhase → Option (BillingDb ι × BillingPhase)
  | .open request, .ahead => env.start i db request
  | .proceed, .active ⟨[], _, inserted⟩ =>
    some (db.commit i ⟨[], none, inserted⟩, .committed)
  | .proceed, .active ⟨statement :: todo, org, inserted⟩ =>
    env.execute i db ⟨todo, org, inserted⟩ statement
  | .abort, .active session => some (db.rollback i session, .rolledBack none)
  | _, _ => none

/-- Sessions side by side, while the clock goes on. -/
def handlers (ι : Type) [DecidableEq ι] :
    Handlers ι BillingTurn Timestamp (BillingDb ι) BillingPhase where
  turn i m db phase := env.turn i db m phase
  env now db := if db.clock ≤ now then some { db with clock := now } else none

end BillingEnv

/-! ## What a turn does -/

/-- The phases and databases a turn leads to. -/
inductive BillingEffect (env : BillingEnv) {ι : Type} [DecidableEq ι] (i : ι) (db : BillingDb ι) :
    BillingTurn → BillingPhase → BillingDb ι → BillingPhase → Prop
  | refuse (request : BillingRequest) (error : CaptureError) :
    BillingEffect env i db (.open request) .ahead db (.rolledBack (some error))
  | insert (batchKey : Option String) (events : List EventIn)
    (unclaimed : db.Unclaimed (events.map (EventIn.eventKey env.hash batchKey))) :
    BillingEffect env i db (.open (.capture batchKey events)) .ahead
      (db.insert i env.hash batchKey events)
      (.active ⟨env.charges (db.events.writeEvents env.hash batchKey events), none,
        db.events.returning env.hash batchKey events⟩)
  | begin (request : BillingRequest) (todo : List Statement)
    (other : ∀ batchKey events, request ≠ .capture batchKey events) :
    BillingEffect env i db (.open request) .ahead db (.active ⟨todo, none, []⟩)
  | get (todo : List Statement) (org org' : Option Organization) (inserted : List EventRow) :
    BillingEffect env i db .proceed (.active ⟨.get :: todo, org, inserted⟩) db
      (.active ⟨todo, org', inserted⟩)
  | skip (todo : List Statement) (org : Option Organization) (inserted : List EventRow) :
    BillingEffect env i db .proceed (.active ⟨.checkWindow :: todo, org, inserted⟩) db
      (.active ⟨todo, org, inserted⟩)
  | due (todo : List Statement) (org : Option Organization) (inserted : List EventRow) :
    BillingEffect env i db .proceed (.active ⟨.checkWindow :: todo, org, inserted⟩) db
      (.active ⟨.grantFree db.clock :: todo, org, inserted⟩)
  | write (statement : Statement) (todo : List Statement) (org : Option Organization)
    (inserted : List EventRow) (a a' : Account) (lock : db.lock i = some a)
    (ledger : env.ledger db.clock statement a = .ok a') :
    BillingEffect env i db .proceed (.active ⟨statement :: todo, org, inserted⟩) (db.hold i a')
      (.active ⟨todo, some a'.org, inserted⟩)
  | fail (statement : Statement) (todo : List Statement) (org : Option Organization)
    (inserted : List EventRow) (error : CreditError) :
    BillingEffect env i db .proceed (.active ⟨statement :: todo, org, inserted⟩)
      (db.rollback i ⟨todo, org, inserted⟩) (.rolledBack (some (.credits error)))
  | commit (org : Option Organization) (inserted : List EventRow) :
    BillingEffect env i db .proceed (.active ⟨[], org, inserted⟩)
      (db.commit i ⟨[], none, inserted⟩) .committed
  | abort (session : BillingSession) :
    BillingEffect env i db .abort (.active session) (db.rollback i session) (.rolledBack none)

namespace BillingEnv

variable {env : BillingEnv} {ι : Type} [DecidableEq ι] {i : ι} {db db' : BillingDb ι}
  {phase phase' : BillingPhase} {m : BillingTurn}

/-- A statement under the lock either writes or fails. -/
theorem underLock_effect {statement : Statement} {todo : List Statement}
    {org : Option Organization} {inserted : List EventRow}
    (h : db.underLock i ⟨todo, org, inserted⟩ (env.ledger db.clock statement) =
      some (db', phase')) :
    BillingEffect env i db .proceed (.active ⟨statement :: todo, org, inserted⟩) db' phase' := by
  obtain ⟨a, hlock, h⟩ := Option.map_eq_some_iff.mp h
  split at h
  next a' hledger =>
    cases h
    exact .write statement todo org inserted a a' hlock hledger
  next error _ =>
    cases h
    exact .fail statement todo org inserted error

theorem turn_effect (h : env.turn i db m phase = some (db', phase')) :
    BillingEffect env i db m phase db' phase' := by
  unfold turn at h
  split at h
  next request =>
    cases request with
    | capture batchKey events =>
      rw [start] at h
      split at h
      · cases h
        exact .refuse _ _
      · split at h
        next hclaim =>
          cases h
          exact .insert batchKey events hclaim
        next => cases h
    | grant amount reason reference =>
      cases h
      exact .begin _ _ (by rintro _ _ ⟨⟩)
    | reset before amount reason reference after =>
      cases h
      exact .begin _ _ (by rintro _ _ ⟨⟩)
  next org inserted =>
    cases h
    exact .commit org inserted
  next statement todo org inserted =>
    unfold execute at h
    split at h
    · cases h
      exact .get todo org _ inserted
    · split at h
      · cases h
        exact .due todo org inserted
      · cases h
        exact .skip todo org inserted
    · exact underLock_effect h
  next session =>
    cases h
    exact .abort session
  next => cases h

end BillingEnv

end Haki
