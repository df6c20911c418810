import Haki.Consolidator.Job
import Haki.Ledger.Subjects

/-!
# The consolidation queue

`claim_jobs`, `run_pending_consolidations`, its subject-scoped form and
`_run_jobs`, as transactions that run side by side.  A session is one open
transaction: what it wrote is not seen by the others until it commits, and the
rows it claimed stay locked until then.  A job row that a session has loaded
keeps the payload it was loaded with.

What processing a job writes to the ledger is here the list of its `(job,
event)` pairs; `_process_job` itself is `processJob`.  `created` and `known`
remember every job as it was created and every event id that was ever given.
-/

namespace Haki

open Data

/-- Primary key of a job. -/
abbrev JobId := Nat

/-- `JobStatus`. -/
inductive JobStatus where
  | pending | running | done | failed
deriving DecidableEq, Repr

/-- A consolidate job. -/
structure Job where
  id : JobId
  status : JobStatus
  /-- `payload["event_ids"]`. -/
  eventIds : List EventId
  createdAt : Timestamp
  startedAt : Option Timestamp
  finishedAt : Option Timestamp
deriving DecidableEq

instance : Keyed Job JobId := ⟨Job.id⟩

@[simp] theorem key_job (j : Job) : key j = j.id := rfl

/-- `STALE_CLAIM_AFTER`. -/
def staleClaimAfter : Timestamp := 2 * 60 * 1000000

namespace Job

/-- The jobs a run may take. -/
def Claimable (now : Timestamp) (job : Job) : Prop :=
  job.status = .pending ∨ job.status = .failed ∨
    (job.status = .running ∧ ∃ t ∈ job.startedAt, t < now - staleClaimAfter)

instance (now : Timestamp) (job : Job) : Decidable (job.Claimable now) :=
  inferInstanceAs (Decidable (_ ∨ _ ∨ _))

/-- `remaining`: the events of other subjects. -/
def remaining (job : Job) : Option (List EventId) → List EventId
  | some ids => job.eventIds.filter (· ∉ ids)
  | none => []

/-- The job after it was processed: what remains of its payload goes back to the queue. -/
def finish (job : Job) (only : Option (List EventId)) (now : Timestamp) : Job :=
  if (job.remaining only).isEmpty then { job with status := .done, finishedAt := some now }
  else { job with status := .pending, startedAt := none, eventIds := job.remaining only }

/-- The job after its processing failed. -/
def fail (job : Job) (now : Timestamp) : Job :=
  { job with status := .failed, finishedAt := some now }

@[simp] theorem finish_id (job : Job) (only : Option (List EventId)) (now : Timestamp) :
    (job.finish only now).id = job.id := by
  rw [finish]
  split <;> rfl

@[simp] theorem fail_id (job : Job) (now : Timestamp) : (job.fail now).id = job.id := rfl

end Job

/-! ## Sessions -/

/-- A session is named by a number. -/
abbrev SessionId := Nat

/-- How far a run has come. -/
inductive Phase where
  /-- The event ids of the subject are read. -/
  | scoped
  /-- The candidates are read. -/
  | listed (candidates : List JobId)
  /-- Jobs are claimed; those in the queue are still to be processed. -/
  | claimed (queue : List Job)

/-- The open transaction of a run. -/
structure Session where
  id : SessionId
  /-- `only_event_ids`. -/
  only : Option (List EventId)
  /-- The job rows the session has loaded. -/
  loaded : List Job
  phase : Phase
  claimedAt : Timestamp
  /-- The processed jobs: as they were claimed, and as they are written. -/
  written : List (Job × Job)
  /-- The claimed jobs that a rate limit left behind. -/
  left : List Job
  /-- The `(job, event)` pairs whose effects are written. -/
  effects : List (JobId × EventId)

instance : Keyed Session SessionId := ⟨Session.id⟩

@[simp] theorem key_session (s : Session) : key s = s.id := rfl

namespace Session

/-- The jobs that are claimed and not processed. -/
def queue (s : Session) : List Job :=
  match s.phase with
  | .claimed queue => queue
  | _ => []

/-- The jobs whose rows the session locks. -/
def locks (s : Session) : List JobId :=
  s.written.map (·.1.id) ++ (s.queue.map Job.id ++ s.left.map Job.id)

/-- The payload the session holds of a job it claims: the one it loaded, if it did. -/
def payload (s : Session) (row : Job) : List EventId :=
  ((s.loaded.find? fun job ↦ job.id = row.id).map Job.eventIds).getD row.eventIds

/-- The row of a job the session claims. -/
def claimRow (s : Session) (now : Timestamp) (row : Job) : Job :=
  { row with status := .running, startedAt := some now, eventIds := s.payload row }

/-- A job row after the session commits. -/
def write (s : Session) (row : Job) : Job :=
  match s.written.find? fun job ↦ job.1.id = row.id with
  | some (_, job) =>
    { row with
      status := job.status
      eventIds := job.eventIds
      startedAt := job.startedAt
      finishedAt := job.finishedAt }
  | none =>
    if row.id ∈ s.left.map Job.id then
      { row with status := .running, startedAt := some s.claimedAt }
    else row

end Session

/-! ## Actions -/

/-- What is committed, and the open transactions. -/
structure Queue where
  events : Table Event
  jobs : Table Job
  sessions : Table Session
  /-- The `(job, event)` pairs whose effects are committed. -/
  effects : List (JobId × EventId)
  created : Table Job
  known : List EventId

/-- How processing a job ends. -/
inductive Outcome where
  | success
  | failure
  /-- The provider answers 429: the batch stops. -/
  | rateLimited
deriving DecidableEq, Repr

/-- What an open session does next. -/
inductive Turn where
  /-- A subject-scoped run reads the candidate jobs. -/
  | loadCandidates (now : Timestamp)
  /-- `claim_jobs`; rows that any other transaction locks are skipped. -/
  | claim (now : Timestamp) (skipped : List JobId)
  /-- `_run_jobs` processes the next job. -/
  | process (now : Timestamp) (outcome : Outcome)
  /-- The session commits after its last job. -/
  | commit
  /-- The session ends without a commit, at any point. -/
  | crash

/-- One step of one of the parties. -/
inductive QueueAction where
  /-- A capture commits events and their job. -/
  | capture (job : JobId) (createdAt : Timestamp) (events : List Event)
  /-- An erasure commits. -/
  | erase (scope : Scope)
  /-- A merge commits. -/
  | merge (projectId source target : String)
  /-- A worker, an ops tick or an MCP call reads the candidates. -/
  | listAll (session : SessionId) (now : Timestamp)
  /-- A subject-scoped run reads the event ids of the subject. -/
  | readSubject (session : SessionId) (scope : Scope)
  /-- An open session goes on. -/
  | go (session : SessionId) (turn : Turn)

/-- The party is not at a point where it could do that. -/
inductive Stuck where
  | stuck
deriving DecidableEq, Repr

namespace Queue

/-- Nothing captured, nothing running. -/
def empty : Queue := ⟨.empty, .empty, .empty, [], .empty, []⟩

/-- The claimable jobs, oldest first. -/
def claimable (q : Queue) (now : Timestamp) : List Job :=
  (q.jobs.rows.filter fun job ↦ job.Claimable now).insertionSort fun i j ↦
    i.createdAt ≤ j.createdAt

/-- Another session has claimed the job. -/
def Locked (q : Queue) (session : SessionId) (job : JobId) : Prop :=
  ∃ s ∈ q.sessions, s.id ≠ session ∧ job ∈ s.locks

instance (q : Queue) (session : SessionId) (job : JobId) : Decidable (q.Locked session job) :=
  inferInstanceAs (Decidable (∃ s ∈ q.sessions, s.id ≠ session ∧ job ∈ s.locks))

/-- The events of a job that `_process_job` finds. -/
def processed (q : Queue) (eventIds : List EventId) (only : Option (List EventId)) : List EventId :=
  (jobEvents { Db.empty with events := q.events } eventIds only).map Event.id

/-- A capture: all ids are new. -/
def capture (q : Queue) (job : JobId) (createdAt : Timestamp) (events : List Event) :
    Except Stuck Queue :=
  if job ∉ q.created.rows.map Job.id ∧ ∀ e ∈ events, e.id ∉ q.known then
    let row : Job := ⟨job, .pending, events.map Event.id, createdAt, none, none⟩
    .ok { q with
      events := events.foldl Table.insert q.events
      jobs := q.jobs.insert row
      created := q.created.insert row
      known := q.known ++ events.map Event.id }
  else .error .stuck

/-- The jobs a session wins. -/
def won (q : Queue) (s : Session) (candidates : List JobId) (now : Timestamp)
    (skipped : List JobId) : List Job :=
  (q.claimable now).filter fun job ↦
    job.id ∈ candidates ∧ ¬ q.Locked s.id job.id ∧ job.id ∉ skipped

/-- A session processes the next job of its queue. -/
def processNext (q : Queue) (s : Session) (job : Job) (queue : List Job) (now : Timestamp) :
    Outcome → Session
  | .success =>
    { s with
      phase := .claimed queue
      written := s.written ++ [(job, job.finish s.only now)]
      effects := s.effects ++ (q.processed job.eventIds s.only).map (job.id, ·) }
  | .failure =>
    { s with phase := .claimed queue, written := s.written ++ [(job, job.fail now)] }
  | .rateLimited =>
    { s with
      phase := .claimed []
      written := s.written ++ [(job, job.fail now)]
      left := s.left ++ queue }

/-- A session commits what it wrote. -/
def commit (q : Queue) (s : Session) : Queue :=
  { q with
    jobs := q.jobs.modify s.write
    effects := q.effects ++ s.effects
    sessions := q.sessions.filter fun t ↦ t.id ≠ s.id }

/-- A session ends and leaves nothing. -/
def crash (q : Queue) (s : Session) : Queue :=
  { q with sessions := q.sessions.filter fun t ↦ t.id ≠ s.id }

/-- An open session goes on, if the turn is one its phase allows. -/
def go (q : Queue) (s : Session) : Turn → Except Stuck Queue
  | .loadCandidates now =>
    match s.phase, s.only with
    | .scoped, some ids =>
      let candidates := (q.claimable now).filter fun job ↦ ∃ e ∈ job.eventIds, e ∈ ids
      .ok { q with
        sessions := q.sessions.update s.id fun _ ↦
          { s with loaded := q.claimable now, phase := .listed (candidates.map Job.id) } }
    | _, _ => .error .stuck
  | .claim now skipped =>
    match s.phase with
    | .listed candidates =>
      .ok { q with
        sessions := q.sessions.update s.id fun _ ↦
          { s with
            phase := .claimed ((q.won s candidates now skipped).map (s.claimRow now))
            claimedAt := now } }
    | _ => .error .stuck
  | .process now outcome =>
    match s.phase with
    | .claimed (job :: queue) =>
      .ok { q with
        sessions := q.sessions.update s.id fun _ ↦ q.processNext s job queue now outcome }
    | _ => .error .stuck
  | .commit =>
    match s.phase with
    | .claimed [] => .ok (q.commit s)
    | _ => .error .stuck
  | .crash => .ok (q.crash s)

/-- One step of one of the parties. -/
def step (q : Queue) : QueueAction → Except Stuck Queue
  | .capture job createdAt events => q.capture job createdAt events
  | .erase scope => .ok { q with events := q.events.filter fun e ↦ e.scope ≠ scope }
  | .merge projectId source target =>
    .ok { q with events := q.events.modify (rescope (Scope.merge projectId source target)) }
  | .listAll session now =>
    if session ∈ q.sessions.rows.map Session.id then .error .stuck
    else
      let candidates := (q.claimable now).map Job.id
      .ok { q with
        sessions := q.sessions.insert ⟨session, none, [], .listed candidates, now, [], [], []⟩ }
  | .readSubject session scope =>
    if session ∈ q.sessions.rows.map Session.id then .error .stuck
    else
      let ids := (q.events.rows.filter fun e ↦ e.scope = scope).map Event.id
      if ids.isEmpty then .ok q
      else .ok { q with sessions := q.sessions.insert ⟨session, some ids, [], .scoped, 0, [], [], []⟩ }
  | .go session turn =>
    match q.sessions.get? session with
    | some s => q.go s turn
    | none => .error .stuck

/-- A run: the parties act one after the other. -/
def run (q : Queue) (actions : List QueueAction) : Except Stuck Queue := actions.foldlM step q

end Queue

end Haki
