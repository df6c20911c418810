import Haki.Consolidator.Queue
import Haki.Sample

/-!
# Every event of a job is processed exactly once

Claims lock the rows they win until the transaction ends, so a job is never in
the hands of two sessions (`Inv.apart`).  From that it follows in every
interleaving that no event gets lost: an event a job was created with stays on
its payload, or its effects are committed, or it was erased (`Inv.jobs`).

That no event comes back rests on more: a run must write back the payload the
job has.  A subject-scoped run holds the payload it read before the claim, and
the job may have been narrowed in between.  `exactly_once` is about the runs in
which that does not happen.
-/

namespace Haki

open Data Control

namespace Queue

variable {q q' : Queue} {s s' : Session} {effects effects' : List (JobId × EventId)} {row : Job}

/-! ## What is not lost -/

/-- The event was captured and erased. -/
def Gone (q : Queue) (e : EventId) : Prop := e ∈ q.known ∧ ∀ event ∈ q.events, event.id ≠ e

/-- Every event the job was created with is on the row, has effects, or was erased. -/
def Covers (q : Queue) (effects : List (JobId × EventId)) (row : Job) : Prop :=
  ∃ job ∈ q.created, job.id = row.id ∧ ∀ e ∈ job.eventIds,
    (row.status ≠ .done ∧ e ∈ row.eventIds) ∨ (row.id, e) ∈ effects ∨ q.Gone e

/-- What is remembered is not forgotten. -/
structure Grows (q q' : Queue) : Prop where
  created : ∀ job ∈ q.created, job ∈ q'.created
  effects : ∀ pair ∈ q.effects, pair ∈ q'.effects
  gone : ∀ e, q.Gone e → q'.Gone e

theorem Grows.refl (q : Queue) : q.Grows q := ⟨fun _ h ↦ h, fun _ h ↦ h, fun _ h ↦ h⟩

theorem Covers.mono (h : q.Covers effects row) (hq : q.Grows q')
    (heffects : ∀ pair ∈ effects, pair ∈ effects') : q'.Covers effects' row := by
  obtain ⟨job, hjob, hid, hcovers⟩ := h
  refine ⟨job, hq.created job hjob, hid, fun e he ↦ ?_⟩
  exact (hcovers e he).imp_right (.imp (heffects _) (hq.gone e))

/-- Another row of the job with at least the same payload. -/
theorem Covers.of_payload {row' : Job} (h : q.Covers effects row) (hid : row'.id = row.id)
    (hstatus : row'.status ≠ .done) (hpayload : ∀ e ∈ row.eventIds, e ∈ row'.eventIds) :
    q.Covers effects row' := by
  obtain ⟨job, hjob, hjobid, hcovers⟩ := h
  refine ⟨job, hjob, hjobid.trans hid.symm, fun e he ↦ ?_⟩
  rcases hcovers e he with ⟨-, he⟩ | hrest
  · exact .inl ⟨hstatus, hpayload e he⟩
  · exact .inr (hid ▸ hrest)

/-! ## The invariant -/

/-- What holds of an open session. -/
structure Held (q : Queue) (s : Session) : Prop where
  loaded : ∀ row ∈ s.loaded, q.Covers q.effects row
  queue : ∀ row ∈ s.queue, q.Covers q.effects row
  written : ∀ job ∈ s.written, q.Covers (q.effects ++ s.effects) job.2
  ids : ∀ job ∈ s.written, job.2.id = job.1.id
  locks : s.locks.Nodup
  live : ∀ id ∈ s.locks, ∃ row ∈ q.jobs, row.id = id ∧ row.status ≠ .done
  idle : (∀ queue, s.phase ≠ .claimed queue) → s.written = [] ∧ s.left = []
  nodup : s.effects.Nodup
  effects : ∀ pair ∈ s.effects, ∃ job ∈ s.written, job.1.id = pair.1 ∧ pair.2 ∈ job.1.eventIds
  rest : ∀ job ∈ s.written, job.2.status ≠ .done → ∀ e ∈ job.2.eventIds,
    e ∈ job.1.eventIds ∧ (job.1.id, e) ∉ s.effects

/-- What holds in every interleaving. -/
structure Inv (q : Queue) : Prop where
  known : ∀ event ∈ q.events, event.id ∈ q.known
  created : ∀ job ∈ q.created, ∀ e ∈ job.eventIds, e ∈ q.known
  jobs : ∀ row ∈ q.jobs, q.Covers q.effects row
  sessions : ∀ s ∈ q.sessions, q.Held s
  apart : ∀ s ∈ q.sessions, ∀ t ∈ q.sessions, s.id ≠ t.id → ∀ id ∈ s.locks, id ∉ t.locks

theorem inv_empty : empty.Inv where
  known _ h := absurd h List.not_mem_nil
  created _ h := absurd h List.not_mem_nil
  jobs _ h := absurd h List.not_mem_nil
  sessions _ h := absurd h List.not_mem_nil
  apart _ h := absurd h List.not_mem_nil

/-- A session is held as before when nothing is forgotten and its jobs are still live. -/
theorem Held.mono (h : q.Held s) (hq : q.Grows q')
    (hlive : ∀ row ∈ q.jobs, row.id ∈ s.locks → row.status ≠ .done →
      ∃ row' ∈ q'.jobs, row'.id = row.id ∧ row'.status ≠ .done) : q'.Held s where
  loaded row hrow := (h.loaded row hrow).mono hq hq.effects
  queue row hrow := (h.queue row hrow).mono hq hq.effects
  written job hjob := (h.written job hjob).mono hq fun pair hpair ↦
    List.mem_append.mpr ((List.mem_append.mp hpair).imp_left (hq.effects pair))
  ids := h.ids
  locks := h.locks
  live id hid := by
    obtain ⟨row, hrow, rfl, hstatus⟩ := h.live id hid
    exact hlive row hrow hid hstatus
  idle := h.idle
  nodup := h.nodup
  effects := h.effects
  rest := h.rest

theorem Held.of_sessions (h : q.Held s) (sessions : Table Session) :
    ({ q with sessions := sessions } : Queue).Held s :=
  h.mono ⟨fun _ h ↦ h, fun _ h ↦ h, fun _ h ↦ h⟩ fun row hrow _ hstatus ↦ ⟨row, hrow, rfl, hstatus⟩

/-- A change outside the jobs and the sessions. -/
theorem Inv.of_events (h : q.Inv) {events : Table Event}
    (hevents : ∀ e ∈ events, ∃ e' ∈ q.events, e'.id = e.id) :
    ({ q with events := events } : Queue).Inv := by
  have hq : q.Grows { q with events := events } := by
    refine ⟨fun _ h ↦ h, fun _ h ↦ h, fun e he ↦ ⟨he.1, fun event hevent heq ↦ ?_⟩⟩
    obtain ⟨event', hevent', hid⟩ := hevents event hevent
    exact he.2 event' hevent' (hid.trans heq)
  constructor
  case known =>
    intro event hevent
    obtain ⟨event', hevent', hid⟩ := hevents event hevent
    exact hid ▸ h.known event' hevent'
  case created => exact h.created
  case jobs => exact fun row hrow ↦ (h.jobs row hrow).mono hq hq.effects
  case sessions =>
    exact fun s hs ↦ (h.sessions s hs).mono hq fun row hrow _ hstatus ↦ ⟨row, hrow, rfl, hstatus⟩
  case apart => exact h.apart

/-- A new session that holds nothing yet. -/
theorem Inv.open (h : q.Inv) (hs : q.Held s) (hlocks : s.locks = []) :
    ({ q with sessions := q.sessions.insert s } : Queue).Inv := by
  constructor
  case known => exact h.known
  case created => exact h.created
  case jobs => exact h.jobs
  case sessions =>
    intro t ht
    refine Held.of_sessions ?_ _
    rcases Table.mem_of_mem_insert ht with ht | rfl
    · exact h.sessions t ht
    · exact hs
  case apart =>
    intro t ht t' ht' hne id hid hid'
    rcases Table.mem_of_mem_insert ht with ht | rfl
    · rcases Table.mem_of_mem_insert ht' with ht' | rfl
      · exact h.apart t ht t' ht' hne id hid hid'
      · rw [hlocks] at hid'
        cases hid'
    · rw [hlocks] at hid
      cases hid

/-- A session goes on, and takes no job that another one holds. -/
theorem Inv.update (h : q.Inv) (hid : s'.id = s.id) (hs' : q.Held s')
    (hlocks : ∀ t ∈ q.sessions, t.id ≠ s.id → ∀ id ∈ s'.locks, id ∉ t.locks) :
    ({ q with sessions := q.sessions.update s.id fun _ ↦ s' } : Queue).Inv := by
  constructor
  case known => exact h.known
  case created => exact h.created
  case jobs => exact h.jobs
  case sessions =>
    intro t ht
    refine Held.of_sessions ?_ _
    rcases Table.mem_update_const hid ht with rfl | ⟨ht, -⟩
    · exact hs'
    · exact h.sessions t ht
  case apart =>
    intro t ht t' ht' hne id hidt hidt'
    rcases Table.mem_update_const hid ht with heq | ⟨hold, hother⟩
    · rcases Table.mem_update_const hid ht' with heq' | ⟨hold', hother'⟩
      · exact hne (by rw [heq, heq'])
      · exact hlocks t' hold' hother' id (heq ▸ hidt) hidt'
    · rcases Table.mem_update_const hid ht' with heq' | ⟨hold', -⟩
      · exact hlocks t hold hother id (heq' ▸ hidt') hidt
      · exact h.apart t hold t' hold' hne id hidt hidt'

/-! ## Candidates and claims -/

theorem Claimable.ne_done {now : Timestamp} (h : row.Claimable now) : row.status ≠ .done := by
  rcases h with h | h | ⟨h, -⟩ <;> simp [h]

theorem mem_claimable {now : Timestamp} :
    row ∈ q.claimable now ↔ row ∈ q.jobs ∧ row.Claimable now := by
  rw [claimable, List.mem_insertionSort, List.mem_filter, decide_eq_true_eq, Table.mem_rows]

theorem claimable_nodup (q : Queue) (now : Timestamp) :
    ((q.claimable now).map Job.id).Nodup := by
  have hperm := List.perm_insertionSort (fun i j : Job ↦ i.createdAt ≤ j.createdAt)
    (q.jobs.rows.filter fun job ↦ job.Claimable now)
  refine (hperm.map Job.id).nodup_iff.mpr ?_
  exact q.jobs.nodup.sublist (List.filter_sublist.map Job.id)

theorem mem_won {candidates skipped : List JobId} {now : Timestamp}
    (h : row ∈ q.won s candidates now skipped) :
    row ∈ q.jobs ∧ row.Claimable now ∧ ¬ q.Locked s.id row.id := by
  obtain ⟨hrow, hwon⟩ := List.mem_filter.mp h
  obtain ⟨hjob, hclaimable⟩ := mem_claimable.mp hrow
  exact ⟨hjob, hclaimable, (of_decide_eq_true hwon).2.1⟩

/-- A row that is loaded, or claimed. -/
theorem Held.covers_claimRow (hq : q.Inv) (h : q.Held s) (hrow : row ∈ q.jobs) (now : Timestamp) :
    q.Covers q.effects (s.claimRow now row) := by
  cases hfind : s.loaded.find? fun job ↦ job.id = row.id with
  | none =>
    refine (hq.jobs row hrow).of_payload rfl (by simp [Session.claimRow]) fun e he ↦ ?_
    simpa [Session.claimRow, Session.payload, hfind] using he
  | some job =>
    have hjob : job.id = row.id := by simpa using List.find?_some hfind
    have hloaded := h.loaded job (List.mem_of_find?_eq_some hfind)
    refine hloaded.of_payload hjob.symm (by simp [Session.claimRow]) fun e he ↦ ?_
    simpa [Session.claimRow, Session.payload, hfind] using he

/-- The jobs a claim puts in the queue are not locked twice. -/
theorem inv_claim {candidates skipped : List JobId} {now : Timestamp} (hq : q.Inv)
    (hs : s ∈ q.sessions) (hphase : s.phase = .listed candidates) :
    ({ q with
      sessions := q.sessions.update s.id fun _ ↦
        { s with
          phase := .claimed ((q.won s candidates now skipped).map (s.claimRow now))
          claimedAt := now } } : Queue).Inv := by
  have h := hq.sessions s hs
  obtain ⟨hwritten, hleft⟩ := h.idle fun queue heq ↦ by rw [hphase] at heq; cases heq
  set won := q.won s candidates now skipped with hwon
  set s' : Session := { s with phase := .claimed (won.map (s.claimRow now)), claimedAt := now }
  have hlocks : s'.locks = won.map Job.id := by
    simp [s', Session.locks, Session.queue, hwritten, hleft, Session.claimRow, Function.comp_def]
  have hmem {id : JobId} (hid : id ∈ s'.locks) : ∃ row ∈ won, row.id = id := by
    rw [hlocks] at hid
    exact List.mem_map.mp hid
  refine hq.update rfl ?_ fun t ht hne id hid hidt ↦ ?_
  · constructor
    case loaded => exact h.loaded
    case queue =>
      intro job hjob
      obtain ⟨row, hrow, rfl⟩ := List.mem_map.mp hjob
      obtain ⟨htable, -, -⟩ := mem_won hrow
      exact h.covers_claimRow hq htable now
    case written => exact h.written
    case ids => exact h.ids
    case locks =>
      rw [hlocks]
      exact (claimable_nodup q now).sublist (List.filter_sublist.map Job.id)
    case live =>
      intro id hid
      obtain ⟨row, hrow, rfl⟩ := hmem hid
      obtain ⟨hjob, hclaimable, -⟩ := mem_won hrow
      exact ⟨row, hjob, rfl, Claimable.ne_done hclaimable⟩
    case idle => exact fun hidle ↦ absurd rfl (hidle _)
    case nodup => exact h.nodup
    case effects => exact h.effects
    case rest => exact h.rest
  · obtain ⟨row, hrow, rfl⟩ := hmem hid
    exact (mem_won hrow).2.2 ⟨t, ht, hne, hidt⟩

/-! ## Processing a job -/

theorem mem_processed {eventIds : List EventId} {only : Option (List EventId)} {e : EventId} :
    e ∈ q.processed eventIds only ↔
      (∃ event ∈ q.events, event.id = e) ∧ e ∈ eventIds ∧ ∀ ids ∈ only, e ∈ ids := by
  rw [processed, List.mem_map]
  constructor
  · rintro ⟨event, hevent, rfl⟩
    rw [jobEvents, List.mem_filter, List.mem_insertionSort, List.mem_filter] at hevent
    obtain ⟨⟨hevent, hid⟩, honly⟩ := hevent
    refine ⟨⟨event, hevent, rfl⟩, of_decide_eq_true hid, ?_⟩
    cases only <;> simp_all
  · rintro ⟨⟨event, hevent, rfl⟩, hid, honly⟩
    refine ⟨event, ?_, rfl⟩
    rw [jobEvents, List.mem_filter, List.mem_insertionSort, List.mem_filter]
    refine ⟨⟨hevent, decide_eq_true hid⟩, ?_⟩
    cases only <;> simp_all

theorem processed_nodup (q : Queue) (eventIds : List EventId) (only : Option (List EventId)) :
    (q.processed eventIds only).Nodup := by
  rw [processed, jobEvents]
  refine List.Nodup.sublist (List.filter_sublist.map Event.id) ?_
  refine ((List.perm_insertionSort _ _).map Event.id).nodup_iff.mpr ?_
  exact q.events.nodup.sublist (List.filter_sublist.map Event.id)

/-- What was on the payload is processed, remains, or is gone. -/
theorem Covers.finish {only : Option (List EventId)} {now : Timestamp} (hq : q.Inv)
    (h : q.Covers q.effects row)
    (heffects : ∀ pair ∈ q.effects, pair ∈ effects)
    (hprocessed : ∀ e ∈ q.processed row.eventIds only, (row.id, e) ∈ effects) :
    q.Covers effects (row.finish only now) := by
  obtain ⟨job, hjob, hid, hcovers⟩ := h
  refine ⟨job, hjob, hid.trans (row.finish_id only now).symm, fun e he ↦ ?_⟩
  rw [row.finish_id]
  rcases hcovers e he with ⟨-, hpayload⟩ | heffect | hgone
  · by_cases hremains : e ∈ row.remaining only
    · left
      rw [Job.finish, if_neg fun hempty ↦ by simp [List.isEmpty_iff.mp hempty] at hremains]
      exact ⟨by simp, hremains⟩
    · right
      by_cases hevent : ∃ event ∈ q.events, event.id = e
      · refine .inl (hprocessed e (mem_processed.mpr ⟨hevent, hpayload, fun ids hids ↦ ?_⟩))
        obtain rfl := Option.mem_def.mp hids
        simpa [Job.remaining, hpayload] using hremains
      · exact .inr ⟨hq.created job hjob e he, fun event he' heq ↦ hevent ⟨event, he', heq⟩⟩
  · exact .inr (.inl (heffects _ heffect))
  · exact .inr (.inr hgone)

/-! ## A session processes its next job -/

section ProcessNext

variable {job : Job} {queue : List Job}

theorem locks_of_claimed (hphase : s.phase = .claimed (job :: queue)) :
    s.locks = s.written.map (·.1.id) ++ (job.id :: (queue.map Job.id ++ s.left.map Job.id)) := by
  rw [Session.locks, Session.queue, hphase]
  rfl

/-- The next job was not processed before. -/
theorem Held.notMem_written (h : q.Held s) (hphase : s.phase = .claimed (job :: queue)) :
    ∀ j ∈ s.written, j.1.id ≠ job.id := by
  intro j hj heq
  have hlocks := h.locks
  rw [locks_of_claimed hphase] at hlocks
  exact (List.nodup_append.mp hlocks).2.2 _ (List.mem_map_of_mem hj) _ List.mem_cons_self heq

theorem Held.notMem_effects (h : q.Held s) (hphase : s.phase = .claimed (job :: queue))
    (e : EventId) : (job.id, e) ∉ s.effects := by
  intro he
  obtain ⟨j, hj, hid, -⟩ := h.effects _ he
  exact h.notMem_written hphase j hj hid

/-- A processed job stays locked. -/
theorem locks_processNext (hphase : s.phase = .claimed (job :: queue)) (now : Timestamp)
    (outcome : Outcome) : (q.processNext s job queue now outcome).locks.Perm s.locks := by
  rw [locks_of_claimed hphase]
  cases outcome with
  | success => simp [processNext, Session.locks, Session.queue]
  | failure => simp [processNext, Session.locks, Session.queue]
  | rateLimited =>
    simp only [processNext, Session.locks, Session.queue, List.map_append, List.map_cons,
      List.map_nil, List.nil_append, List.append_assoc, List.singleton_append]
    exact (List.perm_append_comm.cons _).append_left _

/-- What a session writes of a job, and which effects it adds. -/
structure Adds (q : Queue) (s : Session) (job next : Job) (new : List (JobId × EventId)) : Prop where
  id : next.id = job.id
  covers : q.Covers (q.effects ++ new) next
  nodup : new.Nodup
  effects : ∀ pair ∈ new, pair.1 = job.id ∧ pair.2 ∈ job.eventIds
  rest : next.status ≠ .done → ∀ e ∈ next.eventIds, e ∈ job.eventIds ∧ (job.id, e) ∉ new

theorem adds_finish (hq : q.Inv) (hjob : q.Covers q.effects job) (now : Timestamp) :
    q.Adds s job (job.finish s.only now) ((q.processed job.eventIds s.only).map (job.id, ·)) := by
  constructor
  case id => exact job.finish_id s.only now
  case covers =>
    refine hjob.finish hq (fun pair hpair ↦ List.mem_append_left _ hpair) fun e he ↦ ?_
    exact List.mem_append_right _ (List.mem_map_of_mem he)
  case nodup =>
    exact (processed_nodup q job.eventIds s.only).map fun e e' h ↦ (Prod.mk.inj h).2
  case effects =>
    intro pair hpair
    obtain ⟨e, he, rfl⟩ := List.mem_map.mp hpair
    exact ⟨rfl, (mem_processed.mp he).2.1⟩
  case rest =>
    intro hstatus e he
    have hremains : e ∈ job.remaining s.only := by
      rw [Job.finish] at hstatus he
      split at hstatus
      · exact absurd rfl hstatus
      · rename_i hempty
        rwa [if_neg hempty] at he
    cases honly : s.only with
    | none => simp [Job.remaining, honly] at hremains
    | some ids =>
      rw [honly] at hremains
      obtain ⟨hpayload, hother⟩ := List.mem_filter.mp hremains
      refine ⟨hpayload, fun hnew ↦ ?_⟩
      obtain ⟨e', he', heq⟩ := List.mem_map.mp hnew
      obtain rfl := (Prod.mk.inj heq).2
      exact of_decide_eq_true hother ((mem_processed.mp he').2.2 ids rfl)

theorem adds_fail (hjob : q.Covers q.effects job) (now : Timestamp) :
    q.Adds s job (job.fail now) [] where
  id := rfl
  covers := by
    rw [List.append_nil]
    exact hjob.of_payload rfl (by simp [Job.fail]) fun e he ↦ he
  nodup := List.nodup_nil
  effects _ h := absurd h List.not_mem_nil
  rest _ _ he := ⟨he, List.not_mem_nil⟩

/-- A session that wrote one more job. -/
theorem Held.add {next : Job} {new : List (JobId × EventId)} (h : q.Held s)
    (hphase : s.phase = .claimed (job :: queue)) (hadds : q.Adds s job next new)
    (hphase' : ∃ rest, s'.phase = .claimed rest) (hloaded : s'.loaded = s.loaded)
    (hqueue : ∀ row ∈ s'.queue, row ∈ queue) (hwritten : s'.written = s.written ++ [(job, next)])
    (heffects : s'.effects = s.effects ++ new) (hlocks : s'.locks.Perm s.locks) : q.Held s' := by
  have hold : ∀ j ∈ s.written, j ∈ s'.written := fun j hj ↦ hwritten ▸ List.mem_append_left _ hj
  have hcases : ∀ j ∈ s'.written, j ∈ s.written ∨ j = (job, next) := fun j hj ↦ by
    simpa [hwritten] using hj
  constructor
  case loaded => exact hloaded ▸ h.loaded
  case queue =>
    intro row hrow
    refine h.queue row ?_
    rw [Session.queue, hphase]
    exact List.mem_cons_of_mem _ (hqueue row hrow)
  case written =>
    intro j hj
    rw [heffects]
    rcases hcases j hj with hj | rfl
    · refine (h.written j hj).mono (Grows.refl q) fun pair hpair ↦ ?_
      rw [← List.append_assoc]
      exact List.mem_append_left _ hpair
    · refine hadds.covers.mono (Grows.refl q) fun pair hpair ↦ ?_
      rcases List.mem_append.mp hpair with hpair | hpair <;> simp [hpair]
  case ids =>
    intro j hj
    rcases hcases j hj with hj | rfl
    · exact h.ids j hj
    · exact hadds.id
  case locks => exact hlocks.nodup_iff.mpr h.locks
  case live => exact fun id hid ↦ h.live id (hlocks.mem_iff.mp hid)
  case idle =>
    obtain ⟨rest, hrest⟩ := hphase'
    exact fun hidle ↦ absurd hrest (hidle rest)
  case nodup =>
    rw [heffects]
    refine List.nodup_append.mpr ⟨h.nodup, hadds.nodup, ?_⟩
    rintro ⟨id, e⟩ he _ hnew rfl
    obtain rfl : id = job.id := (hadds.effects _ hnew).1
    exact h.notMem_effects hphase e he
  case effects =>
    intro pair hpair
    rw [heffects] at hpair
    rcases List.mem_append.mp hpair with hpair | hpair
    · obtain ⟨j, hj, hpayload⟩ := h.effects pair hpair
      exact ⟨j, hold j hj, hpayload⟩
    · obtain ⟨hid, he⟩ := hadds.effects pair hpair
      exact ⟨(job, next), by simp [hwritten], hid.symm, he⟩
  case rest =>
    intro j hj hstatus e he
    rw [heffects]
    rcases hcases j hj with hj | rfl
    · obtain ⟨hpayload, hnew⟩ := h.rest j hj hstatus e he
      refine ⟨hpayload, fun hmem ↦ ?_⟩
      rcases List.mem_append.mp hmem with hmem | hmem
      · exact hnew hmem
      · exact h.notMem_written hphase j hj (hadds.effects _ hmem).1
    · obtain ⟨hpayload, hnew⟩ := hadds.rest hstatus e he
      refine ⟨hpayload, fun hmem ↦ ?_⟩
      rcases List.mem_append.mp hmem with hmem | hmem
      · exact h.notMem_effects hphase e hmem
      · exact hnew hmem

theorem held_processNext (hq : q.Inv) (hs : s ∈ q.sessions)
    (hphase : s.phase = .claimed (job :: queue)) (now : Timestamp) (outcome : Outcome) :
    q.Held (q.processNext s job queue now outcome) := by
  have h := hq.sessions s hs
  have hjob : q.Covers q.effects job := h.queue job (by rw [Session.queue, hphase]; simp)
  have hlocks := locks_processNext (q := q) hphase now outcome
  cases outcome with
  | success =>
    exact h.add hphase (adds_finish hq hjob now) ⟨_, rfl⟩ rfl (fun _ hrow ↦ hrow) rfl rfl hlocks
  | failure =>
    refine h.add hphase (adds_fail hjob now) ⟨_, rfl⟩ rfl (fun _ hrow ↦ hrow) rfl ?_ hlocks
    exact (List.append_nil _).symm
  | rateLimited =>
    refine h.add hphase (adds_fail hjob now) ⟨_, rfl⟩ rfl ?_ rfl (List.append_nil _).symm hlocks
    exact fun _ hrow ↦ absurd hrow List.not_mem_nil

theorem inv_process (hq : q.Inv) (hs : s ∈ q.sessions)
    (hphase : s.phase = .claimed (job :: queue)) (now : Timestamp) (outcome : Outcome) :
    ({ q with
      sessions := q.sessions.update s.id fun _ ↦ q.processNext s job queue now outcome } :
        Queue).Inv := by
  refine hq.update ?_ (held_processNext hq hs hphase now outcome) fun t ht hne id hid hidt ↦ ?_
  · cases outcome <;> rfl
  · exact hq.apart s hs t ht hne.symm id ((locks_processNext hphase now outcome).mem_iff.mp hid) hidt

end ProcessNext

/-! ## A session ends -/

@[simp] theorem write_id (s : Session) (row : Job) : (s.write row).id = row.id := by
  rw [Session.write]
  split
  · rfl
  · split <;> rfl

/-- A commit writes the jobs the session claimed, and no other. -/
theorem write_cases (hids : ∀ job ∈ s.written, job.2.id = job.1.id) (row : Job) :
    (∃ job ∈ s.written, job.1.id = row.id ∧ job.2.id = row.id ∧ (s.write row).status = job.2.status ∧
      (s.write row).eventIds = job.2.eventIds) ∨
    (row.id ∈ s.left.map Job.id ∧ (s.write row).status = .running ∧
      (s.write row).eventIds = row.eventIds) ∨
    (row.id ∉ s.written.map (·.1.id) ∧ row.id ∉ s.left.map Job.id ∧ s.write row = row) := by
  rw [Session.write]
  split
  · rename_i job next hfind
    have hid : job.id = row.id := by simpa using List.find?_some hfind
    have hmem := List.mem_of_find?_eq_some hfind
    exact .inl ⟨_, hmem, hid, (hids _ hmem).trans hid, rfl, rfl⟩
  · rename_i hfind
    split
    · exact .inr (.inl ⟨‹_›, rfl, rfl⟩)
    · refine .inr (.inr ⟨fun hmem ↦ ?_, ‹_›, rfl⟩)
      obtain ⟨job, hjob, hid⟩ := List.mem_map.mp hmem
      simpa [hid] using List.find?_eq_none.mp hfind job hjob

theorem write_of_notMem (hids : ∀ job ∈ s.written, job.2.id = job.1.id) (h : row.id ∉ s.locks) :
    s.write row = row := by
  rw [Session.locks, List.mem_append, List.mem_append] at h
  rcases write_cases hids row with ⟨job, hjob, hid, -⟩ | ⟨hleft, -⟩ | ⟨-, -, hrow⟩
  · exact absurd (.inl (List.mem_map.mpr ⟨job, hjob, hid⟩)) h
  · exact absurd (.inr (.inr hleft)) h
  · exact hrow

/-- The row of a job a session holds is live. -/
theorem Held.ne_done (h : q.Held s) (hrow : row ∈ q.jobs) (hid : row.id ∈ s.locks) :
    row.status ≠ .done := by
  obtain ⟨row', hrow', hid', hstatus⟩ := h.live _ hid
  obtain rfl := Table.eq_of_key_eq hrow' hrow hid'
  exact hstatus

theorem grows_commit (q : Queue) (s : Session) : q.Grows (q.commit s) where
  created _ h := h
  effects _ h := List.mem_append_left _ h
  gone _ h := h

theorem mem_sessions_commit : s' ∈ (q.commit s).sessions ↔ s' ∈ q.sessions ∧ s'.id ≠ s.id := by
  rw [commit, Table.mem_filter, decide_eq_true_eq]

theorem mem_jobs_commit : row ∈ (q.commit s).jobs ↔ ∃ old ∈ q.jobs, s.write old = row :=
  Table.mem_modify fun old ↦ write_id s old

theorem inv_commit (hq : q.Inv) (hs : s ∈ q.sessions) : (q.commit s).Inv := by
  have h := hq.sessions s hs
  have hgrows := grows_commit q s
  constructor
  case known => exact hq.known
  case created => exact hq.created
  case jobs =>
    intro row hrow
    obtain ⟨old, hold, rfl⟩ := mem_jobs_commit.mp hrow
    rcases write_cases h.ids old with ⟨job, hjob, -, hid, hstatus, hpayload⟩ |
      ⟨-, hstatus, hpayload⟩ | ⟨-, -, hwrite⟩
    · obtain ⟨origin, horigin, horiginid, hcovers⟩ := h.written job hjob
      refine ⟨origin, horigin, by rw [horiginid, hid, write_id], fun e he ↦ ?_⟩
      rw [hstatus, hpayload, write_id, ← hid]
      exact (hcovers e he).imp_right (.imp_right (hgrows.gone e))
    · refine ((hq.jobs old hold).mono hgrows hgrows.effects).of_payload (write_id s old) ?_ ?_
      · rw [hstatus]
        decide
      · exact fun e he ↦ hpayload ▸ he
    · rw [hwrite]
      exact (hq.jobs old hold).mono hgrows hgrows.effects
  case sessions =>
    intro t ht
    obtain ⟨ht, hne⟩ := mem_sessions_commit.mp ht
    refine (hq.sessions t ht).mono hgrows fun old hold hid hstatus ↦ ?_
    refine ⟨old, mem_jobs_commit.mpr ⟨old, hold, ?_⟩, rfl, hstatus⟩
    exact write_of_notMem h.ids (hq.apart t ht s hs hne _ hid)
  case apart =>
    intro t ht t' ht'
    exact hq.apart t (mem_sessions_commit.mp ht).1 t' (mem_sessions_commit.mp ht').1

theorem inv_crash (hq : q.Inv) (s : Session) : (q.crash s).Inv := by
  have hmem {t : Session} (ht : t ∈ (q.crash s).sessions) : t ∈ q.sessions :=
    (Table.mem_filter.mp ht).1
  constructor
  case known => exact hq.known
  case created => exact hq.created
  case jobs => exact hq.jobs
  case sessions => exact fun t ht ↦ (hq.sessions t (hmem ht)).of_sessions _
  case apart => exact fun t ht t' ht' ↦ hq.apart t (hmem ht) t' (hmem ht')

/-! ## A session begins -/

/-- A session that has not claimed anything. -/
theorem held_of_idle (hloaded : ∀ row ∈ s.loaded, q.Covers q.effects row)
    (hphase : ∀ queue, s.phase ≠ .claimed queue) (hwritten : s.written = []) (hleft : s.left = [])
    (heffects : s.effects = []) : q.Held s ∧ s.locks = [] := by
  have hqueue : s.queue = [] := by
    rw [Session.queue]
    split
    · exact absurd ‹_› (hphase _)
    · rfl
  have hlocks : s.locks = [] := by simp [Session.locks, hqueue, hwritten, hleft]
  refine ⟨?_, hlocks⟩
  constructor
  case loaded => exact hloaded
  case idle => exact fun _ ↦ ⟨hwritten, hleft⟩
  all_goals simp [hqueue, hwritten, hlocks, heffects]

theorem inv_open (hq : q.Inv) (session : SessionId) (only : Option (List EventId)) (phase : Phase)
    (hphase : ∀ queue, phase ≠ .claimed queue) (now : Timestamp) :
    ({ q with sessions := q.sessions.insert ⟨session, only, [], phase, now, [], [], []⟩ } :
      Queue).Inv := by
  obtain ⟨hheld, hlocks⟩ := held_of_idle (q := q) (s := ⟨session, only, [], phase, now, [], [], []⟩)
    (fun _ h ↦ absurd h List.not_mem_nil) hphase rfl rfl rfl
  exact hq.open hheld hlocks

theorem inv_loadCandidates (hq : q.Inv) (hs : s ∈ q.sessions) (hphase : s.phase = .scoped)
    (now : Timestamp) (candidates : List JobId) :
    ({ q with
      sessions := q.sessions.update s.id fun _ ↦
        { s with loaded := q.claimable now, phase := .listed candidates } } : Queue).Inv := by
  have h := hq.sessions s hs
  obtain ⟨hwritten, hleft⟩ := h.idle fun queue heq ↦ by rw [hphase] at heq; cases heq
  have heffects : s.effects = [] := by
    refine List.eq_nil_iff_forall_not_mem.mpr fun pair hpair ↦ ?_
    obtain ⟨job, hjob, -⟩ := h.effects pair hpair
    rw [hwritten] at hjob
    cases hjob
  obtain ⟨hheld, hlocks⟩ := held_of_idle (q := q)
    (s := { s with loaded := q.claimable now, phase := .listed candidates })
    (fun row hrow ↦ hq.jobs row (mem_claimable.mp hrow).1) (fun _ heq ↦ by cases heq)
    hwritten hleft heffects
  refine hq.update rfl hheld fun t _ _ id hid ↦ ?_
  rw [hlocks] at hid
  cases hid

/-! ## Captures -/

theorem capture_eq_ok {job : JobId} {createdAt : Timestamp} {events : List Event}
    (h : q.capture job createdAt events = .ok q') :
    (∀ row ∈ q.created, row.id ≠ job) ∧ (∀ e ∈ events, e.id ∉ q.known) ∧
      q' = { q with
        events := events.foldl Table.insert q.events
        jobs := q.jobs.insert ⟨job, .pending, events.map Event.id, createdAt, none, none⟩
        created := q.created.insert ⟨job, .pending, events.map Event.id, createdAt, none, none⟩
        known := q.known ++ events.map Event.id } := by
  rw [capture] at h
  split at h
  · rename_i hfresh
    refine ⟨fun row hrow heq ↦ hfresh.1 ?_, hfresh.2, (Except.ok.inj h).symm⟩
    exact List.mem_map.mpr ⟨row, hrow, heq⟩
  · cases h

theorem inv_capture {job : JobId} {createdAt : Timestamp} {events : List Event} (hq : q.Inv)
    (h : q.capture job createdAt events = .ok q') : q'.Inv := by
  obtain ⟨hjob, hevents, rfl⟩ := capture_eq_ok h
  set row : Job := ⟨job, .pending, events.map Event.id, createdAt, none, none⟩
  set q' : Queue := { q with
    events := events.foldl Table.insert q.events
    jobs := q.jobs.insert row
    created := q.created.insert row
    known := q.known ++ events.map Event.id }
  have hfresh : q.created.Fresh row := hjob
  have hcreated {origin : Job} : origin ∈ q'.created ↔ origin ∈ q.created ∨ origin = row :=
    Table.mem_insert hfresh
  have hknown {e : EventId} : e ∈ q'.known ↔ e ∈ q.known ∨ e ∈ events.map Event.id :=
    List.mem_append
  have hgrows : q.Grows q' := by
    refine ⟨fun origin h ↦ hcreated.mpr (.inl h), fun _ h ↦ h, fun e he ↦ ⟨hknown.mpr (.inl he.1), ?_⟩⟩
    intro event hevent heq
    rcases Table.mem_of_mem_foldl_insert hevent with hevent | hevent
    · exact he.2 event hevent heq
    · exact hevents event hevent (heq ▸ he.1)
  constructor
  case known =>
    intro event hevent
    rcases Table.mem_of_mem_foldl_insert hevent with hevent | hevent
    · exact hknown.mpr (.inl (hq.known event hevent))
    · exact hknown.mpr (.inr (List.mem_map_of_mem hevent))
  case created =>
    intro origin horigin e he
    rcases hcreated.mp horigin with horigin | rfl
    · exact hknown.mpr (.inl (hq.created origin horigin e he))
    · exact hknown.mpr (.inr he)
  case jobs =>
    intro row' hrow'
    rcases Table.mem_of_mem_insert hrow' with hrow' | rfl
    · exact (hq.jobs row' hrow').mono hgrows hgrows.effects
    · exact ⟨row, hcreated.mpr (.inr rfl), rfl, fun e he ↦ .inl ⟨by simp [row], he⟩⟩
  case sessions =>
    refine fun s hs ↦ (hq.sessions s hs).mono hgrows fun old hold _ hstatus ↦ ?_
    exact ⟨old, Table.mem_insert_of_mem hold, rfl, hstatus⟩
  case apart => exact hq.apart

/-! ## Steps and runs -/

/-- Everything a turn of a session does. -/
theorem go_cases {turn : Turn} (h : q.go s turn = .ok q') :
    (∃ now candidates, s.phase = .scoped ∧ q' = { q with
      sessions := q.sessions.update s.id fun _ ↦
        { s with loaded := q.claimable now, phase := .listed candidates } }) ∨
    (∃ now candidates skipped, s.phase = .listed candidates ∧ q' = { q with
      sessions := q.sessions.update s.id fun _ ↦
        { s with
          phase := .claimed ((q.won s candidates now skipped).map (s.claimRow now))
          claimedAt := now } }) ∨
    (∃ now outcome job queue, s.phase = .claimed (job :: queue) ∧ q' = { q with
      sessions := q.sessions.update s.id fun _ ↦ q.processNext s job queue now outcome }) ∨
    (turn = .commit ∧ q' = q.commit s) ∨
    q' = q.crash s := by
  cases turn with
  | loadCandidates now =>
    dsimp only [go] at h
    split at h
    · exact .inl ⟨now, _, ‹_›, (Except.ok.inj h).symm⟩
    · cases h
  | claim now skipped =>
    dsimp only [go] at h
    split at h
    · exact .inr (.inl ⟨now, _, skipped, ‹_›, (Except.ok.inj h).symm⟩)
    · cases h
  | process now outcome =>
    dsimp only [go] at h
    split at h
    · exact .inr (.inr (.inl ⟨now, outcome, _, _, ‹_›, (Except.ok.inj h).symm⟩))
    · cases h
  | commit =>
    dsimp only [go] at h
    split at h
    · exact .inr (.inr (.inr (.inl ⟨rfl, (Except.ok.inj h).symm⟩)))
    · cases h
  | crash => exact .inr (.inr (.inr (.inr (Except.ok.inj h).symm)))

theorem inv_go {turn : Turn} (hq : q.Inv) (hs : s ∈ q.sessions) (h : q.go s turn = .ok q') :
    q'.Inv := by
  rcases go_cases h with ⟨now, candidates, hphase, rfl⟩ | ⟨now, candidates, skipped, hphase, rfl⟩ |
    ⟨now, outcome, job, queue, hphase, rfl⟩ | ⟨-, rfl⟩ | rfl
  · exact inv_loadCandidates hq hs hphase now candidates
  · exact inv_claim hq hs hphase
  · exact inv_process hq hs hphase now outcome
  · exact inv_commit hq hs
  · exact inv_crash hq s

/-- Everything a step does: captures, changes of events, new sessions, turns. -/
theorem step_cases {action : QueueAction} (h : q.step action = .ok q') :
    (∃ job createdAt events, q.capture job createdAt events = .ok q') ∨
    (∃ events : Table Event, (∀ e ∈ events, ∃ e' ∈ q.events, e'.id = e.id) ∧
      q' = { q with events := events }) ∨
    (∃ session only phase now, (∀ queue, phase ≠ .claimed queue) ∧
      q' = { q with sessions := q.sessions.insert ⟨session, only, [], phase, now, [], [], []⟩ }) ∨
    (∃ s ∈ q.sessions, ∃ turn, action = .go s.id turn ∧ q.go s turn = .ok q') := by
  cases action with
  | capture job createdAt events => exact .inl ⟨job, createdAt, events, h⟩
  | erase scope =>
    refine .inr (.inl ⟨_, fun e he ↦ ?_, (Except.ok.inj h).symm⟩)
    exact ⟨e, (Table.mem_filter.mp he).1, rfl⟩
  | merge projectId source target =>
    refine .inr (.inl ⟨_, fun e he ↦ ?_, (Except.ok.inj h).symm⟩)
    obtain ⟨e', he', rfl⟩ := (Table.mem_modify (f := rescope _) fun e : Event ↦ rfl).mp he
    exact ⟨e', he', rfl⟩
  | listAll session now =>
    dsimp only [step] at h
    split at h
    · cases h
    · refine .inr (.inr (.inl ⟨session, _, _, now, ?_, (Except.ok.inj h).symm⟩))
      intro queue heq
      cases heq
  | readSubject session scope =>
    dsimp only [step] at h
    split at h
    · cases h
    · split at h
      · exact .inr (.inl ⟨q.events, fun e he ↦ ⟨e, he, rfl⟩, (Except.ok.inj h).symm⟩)
      · refine .inr (.inr (.inl ⟨session, _, _, 0, ?_, (Except.ok.inj h).symm⟩))
        intro queue heq
        cases heq
  | go session turn =>
    dsimp only [step] at h
    split at h
    · rename_i s hs
      obtain rfl : s.id = session := Table.key_of_get? hs
      exact .inr (.inr (.inr ⟨s, Table.mem_of_get? hs, turn, rfl, h⟩))
    · cases h

theorem inv_step {action : QueueAction} (hq : q.Inv) (h : q.step action = .ok q') : q'.Inv := by
  rcases step_cases h with ⟨job, createdAt, events, h⟩ | ⟨events, hevents, rfl⟩ |
    ⟨session, only, phase, now, hphase, rfl⟩ | ⟨s, hs, turn, -, h⟩
  · exact inv_capture hq h
  · exact hq.of_events hevents
  · exact inv_open hq session only phase hphase now
  · exact inv_go hq hs h

theorem inv_run {actions : List QueueAction} (h : empty.run actions = .ok q) : q.Inv :=
  foldlM_preserves (fun _ _ _ ↦ inv_step) inv_empty h

/-! ## What does not come back -/

/-- A session that commits holds no event of a job that the row of the job has lost. -/
def Current (q : Queue) : QueueAction → Prop
  | .go session .commit => ∀ s ∈ q.sessions, s.id = session → ∀ job ∈ s.written, ∀ row ∈ q.jobs,
      row.id = job.1.id → ∀ e ∈ job.1.eventIds, e ∈ row.eventIds
  | _ => True

instance (q : Queue) : ∀ action, Decidable (q.Current action)
  | .go session .commit => inferInstanceAs (Decidable (∀ s ∈ q.sessions, s.id = session →
      ∀ job ∈ s.written, ∀ row ∈ q.jobs, row.id = job.1.id → ∀ e ∈ job.1.eventIds, e ∈ row.eventIds))
  | .go _ (.loadCandidates _) | .go _ (.claim _ _) | .go _ (.process _ _) | .go _ .crash
  | .capture _ _ _ | .erase _ | .merge _ _ _ | .listAll _ _ | .readSubject _ _ => isTrue trivial

/-- No effect is committed twice, and no event whose effects are committed waits on a job. -/
structure Once (q : Queue) : Prop where
  nodup : q.effects.Nodup
  created : ∀ pair ∈ q.effects, ∃ job ∈ q.created, job.id = pair.1
  rest : ∀ row ∈ q.jobs, row.status ≠ .done → ∀ e ∈ row.eventIds, (row.id, e) ∉ q.effects

theorem once_empty : empty.Once where
  nodup := List.nodup_nil
  created _ h := absurd h List.not_mem_nil
  rest _ h := absurd h List.not_mem_nil

theorem Once.of_eq (h : q.Once) (hjobs : q'.jobs = q.jobs) (heffects : q'.effects = q.effects)
    (hcreated : q'.created = q.created) : q'.Once where
  nodup := heffects ▸ h.nodup
  created := heffects ▸ hcreated ▸ h.created
  rest := heffects ▸ hjobs ▸ h.rest

theorem once_capture {job : JobId} {createdAt : Timestamp} {events : List Event} (h : q.Once)
    (hcapture : q.capture job createdAt events = .ok q') : q'.Once := by
  obtain ⟨hjob, -, rfl⟩ := capture_eq_ok hcapture
  constructor
  case nodup => exact h.nodup
  case created =>
    intro pair hpair
    obtain ⟨origin, horigin, hid⟩ := h.created pair hpair
    exact ⟨origin, Table.mem_insert_of_mem horigin, hid⟩
  case rest =>
    intro row hrow hstatus e he heffect
    rcases Table.mem_of_mem_insert hrow with hrow | rfl
    · exact h.rest row hrow hstatus e he heffect
    · obtain ⟨origin, horigin, hid⟩ := h.created _ heffect
      exact hjob origin horigin hid

theorem once_commit (hq : q.Inv) (h : q.Once) (hs : s ∈ q.sessions)
    (hcurrent : q.Current (.go s.id .commit)) : (q.commit s).Once := by
  have hheld := hq.sessions s hs
  -- the effects of the session are on the rows of the jobs it holds
  have hnew : ∀ pair ∈ s.effects, ∃ row ∈ q.jobs, row.id = pair.1 ∧ row.status ≠ .done ∧
      pair.2 ∈ row.eventIds := by
    intro pair hpair
    obtain ⟨job, hjob, hid, he⟩ := hheld.effects pair hpair
    have hlock : job.1.id ∈ s.locks := List.mem_append_left _ (List.mem_map_of_mem hjob)
    obtain ⟨row, hrow, hrowid, hstatus⟩ := hheld.live _ hlock
    exact ⟨row, hrow, hrowid.trans hid, hstatus, hcurrent s hs rfl job hjob row hrow hrowid _ he⟩
  constructor
  case nodup =>
    refine List.nodup_append.mpr ⟨h.nodup, hheld.nodup, ?_⟩
    rintro pair hpair _ hpair' rfl
    obtain ⟨row, hrow, hid, hstatus, he⟩ := hnew pair hpair'
    exact h.rest row hrow hstatus pair.2 he (hid ▸ hpair)
  case created =>
    intro pair hpair
    rcases List.mem_append.mp hpair with hpair | hpair
    · exact h.created pair hpair
    · obtain ⟨row, hrow, hid, -⟩ := hnew pair hpair
      obtain ⟨job, hjob, hjobid, -⟩ := hq.jobs row hrow
      exact ⟨job, hjob, hjobid.trans hid⟩
  case rest =>
    intro row hrow hstatus e he heffect
    obtain ⟨old, hold, rfl⟩ := mem_jobs_commit.mp hrow
    rw [write_id] at heffect
    have hlive : old.status ≠ .done → e ∈ old.eventIds → (old.id, e) ∈ s.effects :=
      fun hlive hpayload ↦ (List.mem_append.mp heffect).resolve_left (h.rest old hold hlive e hpayload)
    have hwritten : (old.id, e) ∈ s.effects → old.id ∈ s.written.map (·.1.id) := fun hmem ↦ by
      obtain ⟨job, hjob, hid, -⟩ := hheld.effects _ hmem
      exact List.mem_map.mpr ⟨job, hjob, hid⟩
    rcases write_cases hheld.ids old with ⟨job, hjob, hid, -, hstatus', hpayload⟩ |
      ⟨hleft, -, hpayload⟩ | ⟨hnot, -, hwrite⟩
    · rw [hstatus'] at hstatus
      rw [hpayload] at he
      obtain ⟨hclaimed, hfresh⟩ := hheld.rest job hjob hstatus e he
      have hlock : old.id ∈ s.locks :=
        hid ▸ List.mem_append_left _ (List.mem_map_of_mem hjob)
      have hmem := hcurrent s hs rfl job hjob old hold hid.symm e hclaimed
      exact hfresh (hid ▸ hlive (hheld.ne_done hold hlock) hmem)
    · have hlock : old.id ∈ s.locks :=
        List.mem_append_right _ (List.mem_append_right _ hleft)
      have hmem := hwritten (hlive (hheld.ne_done hold hlock) (hpayload ▸ he))
      refine (List.nodup_append.mp hheld.locks).2.2 _ hmem _ ?_ rfl
      exact List.mem_append_right _ hleft
    · rw [hwrite] at hstatus he
      exact hnot (hwritten (hlive hstatus he))

theorem once_step {action : QueueAction} (hq : q.Inv) (h : q.Once) (hcurrent : q.Current action)
    (hstep : q.step action = .ok q') : q'.Once := by
  rcases step_cases hstep with ⟨job, createdAt, events, hcapture⟩ | ⟨events, -, rfl⟩ |
    ⟨session, only, phase, now, -, rfl⟩ | ⟨s, hs, turn, rfl, hgo⟩
  · exact once_capture h hcapture
  · exact h.of_eq rfl rfl rfl
  · exact h.of_eq rfl rfl rfl
  · rcases go_cases hgo with ⟨now, candidates, -, rfl⟩ | ⟨now, candidates, skipped, -, rfl⟩ |
      ⟨now, outcome, job, queue, -, rfl⟩ | ⟨rfl, rfl⟩ | rfl
    · exact h.of_eq rfl rfl rfl
    · exact h.of_eq rfl rfl rfl
    · exact h.of_eq rfl rfl rfl
    · exact once_commit hq h hs hcurrent
    · exact h.of_eq rfl rfl rfl

theorem once_run {actions : List QueueAction} (hcurrent : FoldMeets step Current empty actions)
    (h : empty.run actions = .ok q) : q.Once :=
  (foldlM_invariant (I := fun q ↦ q.Inv ∧ q.Once)
    (fun _ _ _ hI hcurrent hstep ↦ ⟨inv_step hI.1 hstep, once_step hI.1 hI.2 hcurrent hstep⟩)
    ⟨inv_empty, once_empty⟩ hcurrent h).2

/-! ## Exactly once -/

/-- What the queue promises of its jobs. -/
structure ExactlyOnce (q : Queue) : Prop where
  /-- The effects of a `(job, event)` pair are committed at most once. -/
  once : q.effects.Nodup
  /-- A job that is done has processed all it was created with, but for erased events. -/
  done : ∀ row ∈ q.jobs, row.status = .done → ∀ job ∈ q.created, job.id = row.id →
    ∀ e ∈ job.eventIds, (row.id, e) ∈ q.effects ∨ q.Gone e
  /-- A job that is not done still lists what it has not processed. -/
  kept : ∀ row ∈ q.jobs, row.status ≠ .done → ∀ job ∈ q.created, job.id = row.id →
    ∀ e ∈ job.eventIds, e ∈ row.eventIds ∨ (row.id, e) ∈ q.effects ∨ q.Gone e
  /-- A job that is not done lists nothing it has processed. -/
  rest : ∀ row ∈ q.jobs, row.status ≠ .done → ∀ e ∈ row.eventIds, (row.id, e) ∉ q.effects

/-- In every interleaving, no event of a job is lost. -/
theorem Inv.covers (h : q.Inv) {job : Job} (hrow : row ∈ q.jobs) (hjob : job ∈ q.created)
    (hid : job.id = row.id) {e : EventId} (he : e ∈ job.eventIds) :
    (row.status ≠ .done ∧ e ∈ row.eventIds) ∨ (row.id, e) ∈ q.effects ∨ q.Gone e := by
  obtain ⟨job', hjob', hid', hcovers⟩ := h.jobs row hrow
  obtain rfl : job' = job := Table.eq_of_key_eq hjob' hjob (hid'.trans hid.symm)
  exact hcovers e he

/-- **Every event of a job is processed exactly once** in every interleaving of captures, erasures,
merges, runs and crashes, when no session commits a job of which it holds an event that the row of
the job has lost. -/
theorem exactly_once {actions : List QueueAction} (h : empty.run actions = .ok q)
    (hcurrent : FoldMeets step Current empty actions) : q.ExactlyOnce := by
  have hinv := inv_run h
  have honce := once_run hcurrent h
  constructor
  case once => exact honce.nodup
  case done =>
    intro row hrow hdone job hjob hid e he
    exact (hinv.covers hrow hjob hid he).resolve_left fun hlive ↦ hlive.1 hdone
  case kept =>
    intro row hrow _ job hjob hid e he
    exact (hinv.covers hrow hjob hid he).imp_left And.right
  case rest => exact honce.rest

end Queue

/-- A batch with an event of Anna and one of Bob. -/
def Sample.batch : QueueAction :=
  .capture 0 0 [
    { Sample.event 1 .trusted with scope := ⟨"project", "anna"⟩ },
    { Sample.event 2 .trusted with scope := ⟨"project", "bob"⟩ }]

/-- A run for Anna, up to its claim. -/
def Sample.anna (session : SessionId) : List QueueAction :=
  [.readSubject session ⟨"project", "anna"⟩, .go session (.loadCandidates 1)]

/-- A run claims its candidates, processes a job and commits. -/
def Sample.consolidate (session : SessionId) : List QueueAction :=
  [.go session (.claim 2 []), .go session (.process 3 .success), .go session .commit]

/-- A run for Anna, and then a worker takes what remains. -/
def Sample.oneByOne : List QueueAction :=
  Sample.batch :: Sample.anna 1 ++ Sample.consolidate 1 ++ [.listAll 2 4] ++ Sample.consolidate 2

theorem Queue.exactly_once_oneByOne :
    ∃ q, Queue.empty.run Sample.oneByOne = .ok q ∧ q.ExactlyOnce ∧ q.effects = [(0, 1), (0, 2)] := by
  obtain ⟨q, hq⟩ : ∃ q, Queue.empty.run Sample.oneByOne = .ok q := exists_eq_ok (by decide +kernel)
  refine ⟨q, hq, Queue.exactly_once hq (by decide +kernel), ?_⟩
  have heffects : (Queue.empty.run Sample.oneByOne).map Queue.effects = .ok [(0, 1), (0, 2)] := by
    decide +kernel
  rw [hq] at heffects
  exact Except.ok.inj heffects

/-- Two runs for Anna read the candidates before the first one claims the batch. -/
def Sample.bothRead : List QueueAction :=
  Sample.batch :: Sample.anna 1 ++ Sample.anna 2 ++ Sample.consolidate 1 ++ Sample.consolidate 2

/-- Anna's event is processed twice. -/
theorem Queue.stale_payload_processed_twice :
    ¬ ∀ actions q, Queue.empty.run actions = .ok q → q.ExactlyOnce := by
  intro h
  obtain ⟨q, hq⟩ : ∃ q, Queue.empty.run Sample.bothRead = .ok q := exists_eq_ok (by decide +kernel)
  have heffects : (Queue.empty.run Sample.bothRead).map Queue.effects = .ok [(0, 1), (0, 1)] := by
    decide +kernel
  rw [hq] at heffects
  have honce := (h _ q hq).once
  rw [Except.ok.inj heffects] at honce
  exact absurd honce (by decide)

end Haki
