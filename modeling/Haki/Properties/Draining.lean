import Haki.Properties.ExactlyOnce
import Mathlib.Data.Finset.Dedup
import Mathlib.Data.Finset.Order
import Mathlib.Data.Int.ConditionallyCompleteOrder

/-!
# The queue can always be drained

Whatever captures, erasures, merges, runs and crashes have come before: once the
open transactions have ended, a worker that polls late enough can take every job
that is not done, and a job is done after the first of its polls in which the
extraction succeeds.  Nothing is stuck and nothing is lost on the way.
-/

namespace Haki

open Data Control

namespace Queue

variable {q q' : Queue} {s s' : Session} {row : Job} {now : Timestamp} {session : SessionId}
  {succeeds : JobId → Bool}

/-! ## What a worker does -/

/-- How the processing of a job ends, when extractions succeed or fail.  Rate limits are left out of
these polls: one would end the poll and leave the rest of its batch running. -/
def outcomeOf (succeeds : JobId → Bool) (id : JobId) : Outcome :=
  if succeeds id then .success else .failure

/-- `_run_once` of the worker: read the candidates, claim them, process each, commit. -/
def poll (q : Queue) (session : SessionId) (now : Timestamp) (succeeds : JobId → Bool) :
    Except Stuck Queue :=
  q.run ([.listAll session now, .go session (.claim now [])] ++
    (q.claimable now).map (fun job ↦ .go session (.process now (outcomeOf succeeds job.id))) ++
    [.go session .commit])

/-- The open transactions end without a commit. -/
def abandon (q : Queue) : Except Stuck Queue :=
  q.run (q.sessions.rows.map fun s ↦ .go s.id .crash)

/-! ## Jobs and their rows -/

/-- A running job has a start, and every job that was created has a row. -/
structure Started (q : Queue) : Prop where
  started : ∀ row ∈ q.jobs, row.status = .running → row.startedAt ≠ none
  written : ∀ s ∈ q.sessions, ∀ job ∈ s.written, job.2.status ≠ .running
  rows : ∀ job ∈ q.created, ∃ row ∈ q.jobs, row.id = job.id

theorem started_empty : empty.Started :=
  ⟨fun _ h ↦ absurd h List.not_mem_nil, fun _ h ↦ absurd h List.not_mem_nil,
    fun _ h ↦ absurd h List.not_mem_nil⟩

theorem finish_ne_running (job : Job) (only : Option (List EventId)) (now : Timestamp) :
    (job.finish only now).status ≠ .running := by
  rw [Job.finish]
  split <;> simp

/-- What a session writes when it processes a job. -/
theorem mem_written_processNext {job : Job} {queue : List Job} {outcome : Outcome} {pair : Job × Job}
    (h : pair ∈ (q.processNext s job queue now outcome).written) :
    pair ∈ s.written ∨ pair = (job, job.finish s.only now) ∨ pair = (job, job.fail now) := by
  cases outcome with
  | success => exact (List.mem_append.mp h).imp_right fun h ↦ .inl (List.mem_singleton.mp h)
  | failure | rateLimited =>
    exact (List.mem_append.mp h).imp_right fun h ↦ .inr (List.mem_singleton.mp h)

theorem Started.update (h : q.Started) (hid : s'.id = s.id)
    (hs' : ∀ job ∈ s'.written, job.2.status ≠ .running) :
    ({ q with sessions := q.sessions.update s.id fun _ ↦ s' } : Queue).Started := by
  refine ⟨h.started, fun t ht ↦ ?_, h.rows⟩
  rcases Table.mem_update_const hid ht with rfl | ⟨ht, -⟩
  · exact hs'
  · exact h.written t ht

/-- The row of a job after a commit is running only with a start. -/
theorem started_write (hwritten : ∀ job ∈ s.written, job.2.status ≠ .running)
    (hrow : row.status = .running → row.startedAt ≠ none) :
    (s.write row).status = .running → (s.write row).startedAt ≠ none := by
  rw [Session.write]
  split
  · next hfind => exact fun h ↦ absurd h (hwritten _ (List.mem_of_find?_eq_some hfind))
  · split
    · exact fun _ ↦ Option.some_ne_none _
    · exact hrow

theorem Started.go {turn : Turn} (h : q.Started) (hs : s ∈ q.sessions) (hgo : q.go s turn = .ok q') :
    q'.Started := by
  rcases go_cases hgo with ⟨now, candidates, -, rfl⟩ | ⟨now, candidates, skipped, -, rfl⟩ |
    ⟨now, outcome, job, queue, -, rfl⟩ | ⟨-, rfl⟩ | rfl
  · exact h.update rfl (h.written s hs)
  · exact h.update rfl (h.written s hs)
  · refine h.update (by cases outcome <;> rfl) fun pair hpair ↦ ?_
    rcases mem_written_processNext hpair with hpair | rfl | rfl
    · exact h.written s hs pair hpair
    · exact finish_ne_running job s.only now
    · simp [Job.fail]
  · refine ⟨fun row hrow ↦ ?_, fun t ht ↦ h.written t (mem_sessions_commit.mp ht).1, fun job hjob ↦ ?_⟩
    · obtain ⟨old, hold, rfl⟩ := mem_jobs_commit.mp hrow
      exact started_write (h.written s hs) (h.started old hold)
    · obtain ⟨row, hrow, hid⟩ := h.rows job hjob
      exact ⟨_, mem_jobs_commit.mpr ⟨row, hrow, rfl⟩, (write_id s row).trans hid⟩
  · exact ⟨h.started, fun t ht ↦ h.written t (Table.mem_filter.mp ht).1, h.rows⟩

theorem Started.step {action : QueueAction} (hq : q.Inv) (h : q.Started)
    (hstep : q.step action = .ok q') : q'.Started := by
  rcases step_cases hstep with ⟨job, createdAt, events, hcapture⟩ | ⟨events, -, rfl⟩ |
    ⟨session, only, phase, now, -, rfl⟩ | ⟨s, hs, turn, -, hgo⟩
  · obtain ⟨hjob, -, rfl⟩ := capture_eq_ok hcapture
    set new : Job := ⟨job, .pending, events.map Event.id, createdAt, none, none⟩
    have hfresh : q.jobs.Fresh new := by
      intro row hrow hid
      obtain ⟨origin, horigin, horiginid, -⟩ := hq.jobs row hrow
      exact hjob origin horigin (horiginid.trans hid)
    refine ⟨fun row hrow ↦ ?_, h.written, fun origin horigin ↦ ?_⟩
    · rcases Table.mem_of_mem_insert hrow with hrow | rfl
      · exact h.started row hrow
      · simp [new]
    · rcases Table.mem_of_mem_insert horigin with horigin | rfl
      · obtain ⟨row, hrow, hid⟩ := h.rows origin horigin
        exact ⟨row, Table.mem_insert_of_mem hrow, hid⟩
      · exact ⟨new, (Table.mem_insert hfresh).mpr (.inr rfl), rfl⟩
  · exact ⟨h.started, h.written, h.rows⟩
  · refine ⟨h.started, fun t ht ↦ ?_, h.rows⟩
    rcases Table.mem_of_mem_insert ht with ht | rfl
    · exact h.written t ht
    · exact fun _ hjob ↦ absurd hjob List.not_mem_nil
  · exact h.go hs hgo

theorem started_run {actions : List QueueAction} (h : empty.run actions = .ok q) :
    q.Inv ∧ q.Started :=
  foldlM_preserves (I := fun q ↦ q.Inv ∧ q.Started)
    (fun _ _ _ hI h ↦ ⟨inv_step hI.1 h, hI.2.step hI.1 h⟩) ⟨inv_empty, started_empty⟩ h

/-! ## Polls -/

/-- No transaction is open, and every claim of a running job is stale. -/
structure Idle (q : Queue) (now : Timestamp) : Prop where
  sessions : q.sessions.rows = []
  stale : ∀ row ∈ q.jobs, row.status = .running → ∃ t ∈ row.startedAt, t < now - staleClaimAfter

theorem Idle.claimable (h : q.Idle now) (hrow : row ∈ q.jobs) (hne : row.status ≠ .done) :
    row.Claimable now := by
  cases hs : row.status with
  | pending => exact .inl hs
  | failed => exact .inr (.inl hs)
  | running => exact .inr (.inr ⟨hs, h.stale row hrow hs⟩)
  | done => exact absurd hs hne

/-- The row a session writes for a job that it has processed. -/
def processedRow (s : Session) (now : Timestamp) (succeeds : JobId → Bool) (job : Job) : Job :=
  if succeeds job.id then job.finish s.only now else job.fail now

theorem processNext_outcomeOf (q : Queue) (s : Session) (job : Job) (queue : List Job)
    (now : Timestamp) (succeeds : JobId → Bool) :
    let s' := q.processNext s job queue now (outcomeOf succeeds job.id)
    s'.id = s.id ∧ s'.only = s.only ∧ s'.phase = .claimed queue ∧ s'.left = s.left ∧
      s'.written = s.written ++ [(job, processedRow s now succeeds job)] := by
  rw [outcomeOf, processedRow]
  split <;> exact ⟨rfl, rfl, rfl, rfl, rfl⟩

/-- A turn of the session that is alone. -/
theorem step_go (hs : q.sessions.rows = [s]) (turn : Turn) : q.step (.go s.id turn) = q.go s turn := by
  have hget : q.sessions.get? s.id = some s := by
    rw [Table.get?, hs]
    simp
  simp only [step, hget]

theorem rows_update_alone {sessions : Table Session} (hs : sessions.rows = [s]) (hid : s'.id = s.id) :
    (sessions.update s.id fun _ ↦ s').rows = [s'] := by
  rw [Table.rows_update fun a ha ↦ hid.trans ha.symm, hs]
  simp

theorem run_cons_eq_ok {action : QueueAction} {actions : List QueueAction} {q₁ : Queue}
    (h₁ : q.step action = .ok q₁) (h : q₁.run actions = .ok q') :
    q.run (action :: actions) = .ok q' :=
  foldlM_cons_eq_ok.mpr ⟨q₁, h₁, h⟩

theorem run_append_eq_ok {actions actions' : List QueueAction} {q₁ : Queue}
    (h₁ : q.run actions = .ok q₁) (h : q₁.run actions' = .ok q') :
    q.run (actions ++ actions') = .ok q' := by
  rw [run, List.foldlM_append]
  exact bind_eq_ok.mpr ⟨q₁, h₁, h⟩

/-- The one open session has gone through its queue. -/
structure Through (q : Queue) (s s' : Session) (written : List (Job × Job)) (q' : Queue) : Prop where
  sessions : q'.sessions.rows = [s']
  id : s'.id = s.id
  phase : s'.phase = .claimed []
  left : s'.left = s.left
  written : s'.written = s.written ++ written
  jobs : q'.jobs = q.jobs
  created : q'.created = q.created

/-- A session that is alone processes its queue. -/
theorem run_process (now : Timestamp) (succeeds : JobId → Bool) (hs : q.sessions.rows = [s])
    {queue : List Job} (hphase : s.phase = .claimed queue) :
    ∃ q' s', q.run (queue.map fun job ↦ .go s.id (.process now (outcomeOf succeeds job.id))) = .ok q' ∧
      q.Through s s' (queue.map fun job ↦ (job, processedRow s now succeeds job)) q' := by
  induction queue generalizing q s with
  | nil => exact ⟨q, s, rfl, hs, rfl, hphase, rfl, (List.append_nil _).symm, rfl, rfl⟩
  | cons job queue ih =>
    set s₁ := q.processNext s job queue now (outcomeOf succeeds job.id)
    obtain ⟨hid, honly, hphase₁, hleft, hwritten⟩ :=
      processNext_outcomeOf q s job queue now succeeds
    set q₁ : Queue := { q with sessions := q.sessions.update s.id fun _ ↦ s₁ }
    have hstep : q.step (.go s.id (.process now (outcomeOf succeeds job.id))) = .ok q₁ := by
      rw [step_go hs, go, hphase]
    obtain ⟨q', s', hrun, h⟩ := ih (q := q₁) (s := s₁) (rows_update_alone hs hid) hphase₁
    rw [hid] at hrun
    refine ⟨q', s', run_cons_eq_ok hstep hrun, ?_⟩
    constructor
    case sessions => exact h.sessions
    case id => exact h.id.trans hid
    case phase => exact h.phase
    case left => exact h.left.trans hleft
    case jobs => exact h.jobs
    case created => exact h.created
    case written =>
      have hrow (j : Job) : processedRow s₁ now succeeds j = processedRow s now succeeds j := by
        rw [processedRow, processedRow, honly]
      rw [h.written, hwritten, List.append_assoc, List.singleton_append, List.map_cons]
      simp only [hrow]

/-- What a worker makes of a job that it has claimed. -/
theorem processedRow_status (hs : s.only = none) (job : Job) :
    (processedRow s now succeeds job).status = if succeeds job.id then .done else .failed := by
  rw [processedRow, hs]
  split <;> rfl

@[simp] theorem processedRow_id (s : Session) (now : Timestamp) (succeeds : JobId → Bool)
    (job : Job) : (processedRow s now succeeds job).id = job.id := by
  rw [processedRow]
  split <;> simp

/-- The session of a worker, once it has claimed what it can. -/
def claimedBy (q : Queue) (session : SessionId) (now : Timestamp) : Session :=
  let s : Session :=
    ⟨session, none, [], .listed ((q.claimable now).map Job.id), now, [], [], []⟩
  { s with phase := .claimed ((q.claimable now).map (s.claimRow now)) }

/-- A worker that is alone claims every job it may take. -/
theorem run_claim (h : q.sessions.rows = []) (session : SessionId) (now : Timestamp) :
    ∃ q₁, q.run [.listAll session now, .go session (.claim now [])] = .ok q₁ ∧
      q₁.sessions.rows = [q.claimedBy session now] ∧ q₁.jobs = q.jobs ∧ q₁.created = q.created := by
  set s : Session := ⟨session, none, [], .listed ((q.claimable now).map Job.id), now, [], [], []⟩
  set q₀ : Queue := { q with sessions := q.sessions.insert s }
  have hnone (t : Session) : t ∉ q.sessions := by
    rw [← Table.mem_rows, h]
    exact List.not_mem_nil
  have halone : q₀.sessions.rows = [s] := by
    rw [show q₀.sessions = q.sessions.insert s from rfl,
      Table.rows_insert fun t ht ↦ absurd ht (hnone t), h, List.nil_append]
  have hlist : q.step (.listAll session now) = .ok q₀ := by
    rw [step, h]
    exact if_neg List.not_mem_nil
  have hwon : q₀.won s ((q.claimable now).map Job.id) now [] = q.claimable now := by
    refine List.filter_eq_self.mpr fun job hjob ↦ decide_eq_true ⟨List.mem_map_of_mem hjob, ?_, ?_⟩
    · rintro ⟨t, ht, hne, -⟩
      rw [← Table.mem_rows, halone, List.mem_singleton] at ht
      exact hne (congrArg Session.id ht)
    · exact List.not_mem_nil
  have hclaim : q₀.step (.go s.id (.claim now [])) = .ok { q₀ with
      sessions := q₀.sessions.update s.id fun _ ↦ q.claimedBy session now } := by
    rw [step_go halone]
    simp only [go, s, hwon]
    rfl
  exact ⟨_, run_cons_eq_ok hlist (run_cons_eq_ok hclaim rfl),
    rows_update_alone halone rfl, rfl, rfl⟩

/-- What the rows of an idle queue are after a worker has gone through it. -/
theorem write_claimed (session : SessionId) (succeeds : JobId → Bool) (h : q.Idle now)
    (hwritten : s'.written = ((q.claimable now).map
      ((q.claimedBy session now).claimRow now)).map fun job ↦
        (job, processedRow (q.claimedBy session now) now succeeds job))
    (hleft : s'.left = []) (hrow : row ∈ q.jobs) :
    (s'.write row).status ≠ .running ∧
      ((s'.write row).status = .done ↔ row.status = .done ∨ succeeds row.id = true) := by
  have hpairs {pair : Job × Job} (hpair : pair ∈ s'.written) : ∃ job ∈ q.claimable now,
      pair.1.id = job.id ∧
        pair.2 = processedRow (q.claimedBy session now) now succeeds pair.1 := by
    rw [hwritten, List.map_map] at hpair
    obtain ⟨job, hjob, rfl⟩ := List.mem_map.mp hpair
    exact ⟨job, hjob, rfl, rfl⟩
  have hids : ∀ pair ∈ s'.written, pair.2.id = pair.1.id := by
    intro pair hpair
    obtain ⟨-, -, -, heq⟩ := hpairs hpair
    rw [heq, processedRow_id]
  have hnone : row.id ∉ s'.left.map Job.id := by
    rw [hleft]
    exact List.not_mem_nil
  rcases write_cases hids row with ⟨pair, hpair, hid, -, hstatus, -⟩ | ⟨hmem, -⟩ | ⟨hmem, -, hsame⟩
  · obtain ⟨job, hjob, hjobid, heq⟩ := hpairs hpair
    obtain ⟨hjob, hclaimable⟩ := mem_claimable.mp hjob
    obtain rfl : job = row := Table.eq_of_key_eq hjob hrow (hjobid.symm.trans hid)
    rw [hstatus, heq, processedRow_status rfl, hid]
    have hne := Claimable.ne_done hclaimable
    cases succeeds job.id <;> simp [hne]
  · exact absurd hmem hnone
  · rw [hsame]
    have hdone : row.status = .done := by
      by_contra hne
      have hclaimed := mem_claimable.mpr ⟨hrow, h.claimable hrow hne⟩
      rw [hwritten, List.map_map, List.map_map] at hmem
      exact hmem (List.mem_map.mpr ⟨row, hclaimed, rfl⟩)
    simp [hdone]

/-- A worker that polls an idle queue takes every job that is not done, and completes those whose
extraction succeeds. -/
theorem poll_idle (h : q.Idle now) (session : SessionId) (succeeds : JobId → Bool) :
    ∃ q', q.poll session now succeeds = .ok q' ∧ q'.sessions.rows = [] ∧ q'.created = q.created ∧
      (∀ row ∈ q'.jobs, row.status ≠ .running) ∧
      ∀ row ∈ q.jobs, ∃ row' ∈ q'.jobs, row'.id = row.id ∧
        (row'.status = .done ↔ row.status = .done ∨ succeeds row.id = true) := by
  obtain ⟨q₁, hclaim, halone, hjobs₁, hcreated₁⟩ := run_claim h.sessions session now
  obtain ⟨q₂, s', hprocess, hthrough⟩ := run_process now succeeds halone rfl
  have hcommit : q₂.step (.go session .commit) = .ok (q₂.commit s') := by
    have hid : s'.id = session := hthrough.id
    rw [← hid, step_go hthrough.sessions, go, hthrough.phase]
  have hjobs : q₂.jobs = q.jobs := hthrough.jobs.trans hjobs₁
  have hwrite {row : Job} (hrow : row ∈ q.jobs) :=
    write_claimed session succeeds h hthrough.written hthrough.left hrow
  refine ⟨q₂.commit s', ?_, ?_, hthrough.created.trans hcreated₁, fun row hrow ↦ ?_,
    fun row hrow ↦ ?_⟩
  · rw [List.map_map] at hprocess
    exact run_append_eq_ok (run_append_eq_ok hclaim hprocess) (run_cons_eq_ok hcommit rfl)
  · change q₂.sessions.rows.filter (fun t ↦ t.id ≠ s'.id) = []
    rw [hthrough.sessions]
    simp
  · obtain ⟨old, hold, rfl⟩ := mem_jobs_commit.mp hrow
    exact (hwrite (hjobs ▸ hold)).1
  · exact ⟨_, mem_jobs_commit.mpr ⟨row, hjobs ▸ hrow, rfl⟩, write_id s' row, (hwrite hrow).2⟩

/-! ## Recovery -/

/-- The worker polls again and again. -/
def polls (q : Queue) (session : SessionId) (ticks : List (Timestamp × (JobId → Bool))) :
    Except Stuck Queue :=
  ticks.foldlM (fun q tick ↦ q.poll session tick.1 tick.2) q

/-- A run of polls is a run of the queue. -/
theorem polls_run {ticks : List (Timestamp × (JobId → Bool))} (h : q.polls session ticks = .ok q') :
    ∃ actions, q.run actions = .ok q' := by
  induction ticks generalizing q with
  | nil => exact ⟨[], h⟩
  | cons tick ticks ih =>
    obtain ⟨q₁, hpoll, h⟩ := foldlM_cons_eq_ok.mp h
    obtain ⟨actions, hactions⟩ := ih h
    exact ⟨_, run_append_eq_ok hpoll hactions⟩

/-- A job is done after a run of polls when it was done, or one of them has processed it. -/
theorem polls_idle (session : SessionId) (ticks : List (Timestamp × (JobId → Bool)))
    (h : q.sessions.rows = []) (hstale : ∀ tick ∈ ticks, q.Idle tick.1) :
    ∃ q', q.polls session ticks = .ok q' ∧ q'.created = q.created ∧
      ∀ row ∈ q.jobs, ∃ row' ∈ q'.jobs, row'.id = row.id ∧
        (row'.status = .done ↔ row.status = .done ∨ ∃ tick ∈ ticks, tick.2 row.id = true) := by
  induction ticks generalizing q with
  | nil => exact ⟨q, rfl, rfl, fun row hrow ↦ ⟨row, hrow, rfl, by simp⟩⟩
  | cons tick ticks ih =>
    obtain ⟨htick, -⟩ := List.forall_mem_cons.mp hstale
    obtain ⟨q₁, hpoll, hempty, hcreated, hrest, hjobs⟩ := poll_idle htick session tick.2
    obtain ⟨q', hpolls, hcreated', hjobs'⟩ := ih hempty fun t _ ↦
      ⟨hempty, fun row hrow hrunning ↦ absurd hrunning (hrest row hrow)⟩
    refine ⟨q', foldlM_cons_eq_ok.mpr ⟨q₁, hpoll, hpolls⟩, hcreated'.trans hcreated, ?_⟩
    intro row hrow
    obtain ⟨row₁, hrow₁, hid₁, hdone₁⟩ := hjobs row hrow
    obtain ⟨row', hrow', hid', hdone'⟩ := hjobs' row₁ hrow₁
    refine ⟨row', hrow', hid'.trans hid₁, ?_⟩
    rw [hdone', hdone₁, hid₁, List.exists_mem_cons_iff, or_assoc]

/-- Every open transaction ends. -/
theorem abandon_eq_ok (q : Queue) : ∃ q', q.abandon = .ok q' ∧ q'.sessions.rows = [] ∧
    q'.jobs = q.jobs ∧ q'.created = q.created := by
  suffices ∀ (l : List Session) (q : Queue), q.sessions.rows = l →
      ∃ q', q.run (l.map fun s ↦ .go s.id .crash) = .ok q' ∧ q'.sessions.rows = [] ∧
        q'.jobs = q.jobs ∧ q'.created = q.created from this _ q rfl
  intro l
  induction l with
  | nil => exact fun q h ↦ ⟨q, rfl, h, rfl, rfl⟩
  | cons s l ih =>
    intro q h
    have hget : q.sessions.get? s.id = some s := by
      rw [Table.get?, h]
      simp
    have hstep : q.step (.go s.id .crash) = .ok (q.crash s) := by
      simp only [step, hget, go]
    have hrows : (q.crash s).sessions.rows = l := by
      change q.sessions.rows.filter (fun t ↦ t.id ≠ s.id) = l
      have hnodup := q.sessions.nodup
      rw [h, List.map_cons, List.nodup_cons] at hnodup
      rw [h, List.filter_cons_of_neg (by simp), List.filter_eq_self]
      exact fun t ht ↦ decide_eq_true fun hid ↦ hnodup.1 (List.mem_map.mpr ⟨t, ht, hid⟩)
    obtain ⟨q', hrun, hempty, hjobs, hcreated⟩ := ih (q.crash s) hrows
    exact ⟨q', run_cons_eq_ok hstep hrun, hempty, hjobs, hcreated⟩

/-- From some moment on, every claim is stale. -/
theorem Started.exists_late (h : q.Started) : ∃ late : Timestamp, ∀ now, late < now →
    ∀ row ∈ q.jobs, row.status = .running → ∃ t ∈ row.startedAt, t < now - staleClaimAfter := by
  obtain ⟨latest, hlatest⟩ := (q.jobs.rows.filterMap Job.startedAt).toFinset.exists_le
  refine ⟨latest + staleClaimAfter, fun now hnow row hrow hrunning ↦ ?_⟩
  obtain ⟨t, ht⟩ := Option.ne_none_iff_exists'.mp (h.started row hrow hrunning)
  have hle := hlatest t (List.mem_toFinset.mpr (List.mem_filterMap.mpr ⟨row, hrow, ht⟩))
  exact ⟨t, ht, lt_sub_iff_add_lt.mpr (lt_of_le_of_lt (add_le_add_left hle _) hnow)⟩

/-- **The queue can always be drained.**  From every state that any interleaving leads to, once the
open transactions have ended, all polls from some moment on go through; and a job that one of them
processes successfully is done, with every event it was created with processed or erased. -/
theorem drains {actions : List QueueAction} (h : empty.run actions = .ok q) (session : SessionId) :
    ∃ late : Timestamp, ∀ ticks : List (Timestamp × (JobId → Bool)), (∀ tick ∈ ticks, late < tick.1) →
      ∃ q', (q.abandon >>= fun q ↦ q.polls session ticks) = .ok q' ∧
        ∀ job ∈ q.created, (∃ tick ∈ ticks, tick.2 job.id = true) →
          (∃ row ∈ q'.jobs, row.id = job.id ∧ row.status = .done) ∧
            ∀ e ∈ job.eventIds, (job.id, e) ∈ q'.effects ∨ q'.Gone e := by
  obtain ⟨-, hstarted⟩ := started_run h
  obtain ⟨late, hlate⟩ := hstarted.exists_late
  obtain ⟨q₁, habandon, hempty, hjobs₁, hcreated₁⟩ := q.abandon_eq_ok
  refine ⟨late, fun ticks hticks ↦ ?_⟩
  obtain ⟨q', hpolls, hcreated, hjobs⟩ := polls_idle session ticks hempty fun tick htick ↦
    ⟨hempty, hjobs₁ ▸ hlate tick.1 (hticks tick htick)⟩
  obtain ⟨polled, hpolled⟩ := polls_run hpolls
  have hreached := run_append_eq_ok h (run_append_eq_ok habandon hpolled)
  have hinv := inv_run hreached
  refine ⟨q', bind_eq_ok.mpr ⟨q₁, habandon, hpolls⟩, fun job hjob htick ↦ ?_⟩
  obtain ⟨row, hrow, hid⟩ := hstarted.rows job hjob
  obtain ⟨row', hrow', hid', hdone⟩ := hjobs row (hjobs₁ ▸ hrow)
  have hdone' : row'.status = .done := hdone.mpr (.inr (hid ▸ htick))
  have hrowid : row'.id = job.id := hid'.trans hid
  refine ⟨⟨row', hrow', hrowid, hdone'⟩, fun e he ↦ ?_⟩
  have hjob' : job ∈ q'.created := (hcreated.trans hcreated₁) ▸ hjob
  rcases hinv.covers hrow' hjob' hrowid.symm he with ⟨hlive, -⟩ | hrest
  · exact absurd hdone' hlive
  · exact hrowid ▸ hrest

end Queue

/-- A run for Anna is killed after its claim. -/
def Sample.killed : List QueueAction :=
  Sample.batch :: Sample.anna 1 ++ [.go 1 (.claim 2 [])]

theorem Queue.drains_killed : ∃ q, Queue.empty.run Sample.killed = .ok q ∧
    ∃ late : Timestamp, ∀ ticks : List (Timestamp × (JobId → Bool)), (∀ tick ∈ ticks, late < tick.1) →
      ∃ q', (q.abandon >>= fun q ↦ q.polls 2 ticks) = .ok q' ∧
        ∀ job ∈ q.created, (∃ tick ∈ ticks, tick.2 job.id = true) →
          (∃ row ∈ q'.jobs, row.id = job.id ∧ row.status = .done) ∧
            ∀ e ∈ job.eventIds, (job.id, e) ∈ q'.effects ∨ q'.Gone e := by
  obtain ⟨q, hq⟩ : ∃ q, Queue.empty.run Sample.killed = .ok q := exists_eq_ok rfl
  exact ⟨q, hq, Queue.drains hq 2⟩

end Haki
