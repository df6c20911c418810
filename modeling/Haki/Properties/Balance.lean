import Haki.Billing.Sessions
import Haki.Control.Fold
import Haki.Properties.Intake

/-!
# The credit ledger of interleaved sessions

The balance of an organization is the sum of its committed transactions: every
function of the ledger works on the row it has locked and refreshed, and the
lock is kept to the end of the session.  A session that is rolled back leaves
nothing.
-/

namespace Haki

open Control

/-! ## Accounts -/

namespace Account

/-- A balance that its transactions account for. -/
structure Consistent (a : Account) : Prop where
  sum : a.org.creditBalance = (a.transactions.map CreditTransaction.delta).sum
  nonneg : 0 ≤ a.org.creditBalance
  running : ∀ before t after, a.transactions = before ++ t :: after →
    t.balanceAfter = (before.map CreditTransaction.delta).sum + t.delta

/-- What the ledger does to an account: it keeps it consistent, and only adds transactions. -/
structure Advances (a a' : Account) : Prop where
  consistent : a.Consistent → a'.Consistent
  rows : a.transactions <+: a'.transactions

variable {a a' b : Account} {now : Timestamp} {reason : CreditReason}
  {reference : Option CreditReference} {amount balance : Int}

theorem Advances.refl (a : Account) : a.Advances a := ⟨id, List.prefix_refl _⟩

theorem Advances.trans (h : a.Advances a') (h' : a'.Advances b) : a.Advances b :=
  ⟨h'.consistent ∘ h.consistent, h.rows.trans h'.rows⟩

/-- Columns other than the balance are no matter of the ledger. -/
theorem advances_of_eq (hbalance : a'.org.creditBalance = a.org.creditBalance)
    (hrows : a'.transactions = a.transactions) : a.Advances a' where
  consistent h :=
    ⟨by rw [hbalance, hrows, h.sum], by rw [hbalance]; exact h.nonneg, by
      rw [hrows]; exact h.running⟩
  rows := hrows ▸ List.prefix_refl _

theorem consistent_post (h : a.Consistent) (hbalance : 0 ≤ balance) :
    (a.post now reason reference balance).Consistent where
  sum := by
    rw [post, List.map_append, List.sum_append, ← h.sum]
    simp
  nonneg := hbalance
  running before t after heq := by
    rcases List.eq_nil_or_concat after with rfl | ⟨after, t', rfl⟩
    · obtain ⟨rfl, ht⟩ := List.append_inj' heq rfl
      obtain rfl := List.singleton_inj.mp ht
      rw [← h.sum]
      simp
    · rw [List.concat_eq_append, ← List.cons_append, ← List.append_assoc] at heq
      exact h.running before t after (List.append_inj' heq rfl).1

theorem advances_post (hbalance : a.Consistent → 0 ≤ balance) :
    a.Advances (a.post now reason reference balance) where
  consistent h := consistent_post h (hbalance h)
  rows := List.prefix_append _ _

theorem advances_grantCredits (h : a.grantCredits now reason reference amount = .ok a') :
    a.Advances a' := by
  rw [grantCredits] at h
  split at h
  · cases h
  · cases h
    refine advances_post fun ha ↦ ?_
    have := ha.nonneg
    omega

theorem advances_resetMonthlyCredits
    (h : a.resetMonthlyCredits now reason reference amount = .ok a') : a.Advances a' := by
  rw [resetMonthlyCredits] at h
  split at h
  · cases h
  · split at h
    · cases h
      exact .refl a
    · cases h
      exact advances_post fun _ ↦ by omega

theorem advances_tryDebitCredit (h : a.tryDebitCredit now reason reference = .ok a') :
    a.Advances a' := by
  rw [tryDebitCredit] at h
  split at h
  · cases h
  · cases h
    exact advances_post fun _ ↦ by omega

end Account

/-- Every statement keeps the ledger. -/
theorem BillingEnv.advances_ledger {env : BillingEnv} {now : Timestamp} {statement : Statement}
    {a a' : Account} (h : env.ledger now statement a = .ok a') : a.Advances a' := by
  cases statement with
  | get | checkWindow =>
    cases h
    exact .refl a
  | grantFree checked =>
    obtain ⟨granted, hgranted, h⟩ := bind_eq_ok.mp h
    cases h
    exact (Account.advances_grantCredits hgranted).trans (Account.advances_of_eq rfl rfl)
  | grantCredits amount reason reference => exact Account.advances_grantCredits h
  | resetMonthlyCredits amount reason reference => exact Account.advances_resetMonthlyCredits h
  | tryDebitCredit reason reference => exact Account.advances_tryDebitCredit h
  | assign columns =>
    cases h
    exact Account.advances_of_eq rfl rfl

/-! ## Sessions -/

namespace BillingPhase

/-- The events of the open transaction. -/
def inserted : BillingPhase → List EventRow
  | .active session => session.inserted
  | _ => []

end BillingPhase

namespace BillingDb

variable {ι : Type} {db : BillingDb ι} {i j : ι}

/-- The committed events. -/
def committedEvents (db : BillingDb ι) : List EventRow :=
  db.events.rows.filter fun row ↦ (db.writer row.id).isNone

theorem mem_committedEvents {row : EventRow} :
    row ∈ db.committedEvents ↔ row ∈ db.events.rows ∧ db.writer row.id = none := by
  rw [committedEvents, List.mem_filter, Option.isNone_iff_eq_none]

@[simp] theorem committedEvents_hold (a : Account) :
    (db.hold i a).committedEvents = db.committedEvents := rfl

/-- What holds of the database: the ledger is consistent, committed or not, and what is committed
is what sessions committed. -/
structure Sound (old : List EventRow) (db : BillingDb ι) : Prop where
  account : db.account.Consistent
  held : ∀ h ∈ db.held, db.account.Advances h.2
  rows : db.account.transactions = db.commits.flatMap Commit.rows
  events : ∀ row, row ∈ db.committedEvents ↔
    row ∈ old ∨ ∃ commit ∈ db.commits, row ∈ commit.events

/-- What holds of a session: it wrote what is marked as its own, and nothing else. -/
structure Owns (i : ι) (db : BillingDb ι) (phase : BillingPhase) : Prop where
  events : ∀ row, row ∈ phase.inserted ↔ row ∈ db.events.rows ∧ db.writer row.id = some i
  commits : phase ≠ .committed → ∀ commit ∈ db.commits, commit.session ≠ i

variable [DecidableEq ι]

theorem advances_view (h : ∀ h ∈ db.held, db.account.Advances h.2) (i : ι) :
    db.account.Advances (db.view i) := by
  rw [view]
  split
  next j a hheld =>
    split
    · exact h _ hheld
    · exact .refl _
  next => exact .refl _

theorem view_of_lock {a : Account} (h : db.lock i = some a) : db.view i = a := by
  rw [lock] at h
  rw [view]
  split at h
  · split at h
    next hi => rw [if_pos hi, Option.some.inj h]
    next => cases h
  · exact Option.some.inj h

theorem release_eq_some {h : ι × Account} : db.release i = some h ↔ db.held = some h ∧ h.1 ≠ i := by
  rw [release, Option.filter_eq_some_iff, decide_eq_true_iff]

/-- The row of a session that lets go belongs to another one. -/
theorem view_of_release {h : ι × Account} (hrelease : h ∈ db.release i) :
    db.view i = db.account := by
  obtain ⟨hheld, hne⟩ := release_eq_some.mp hrelease
  rw [view, hheld]
  exact if_neg hne

theorem settle_eq_none {id : EventId} :
    db.settle i id = none ↔ db.writer id = none ∨ db.writer id = some i := by
  rw [settle]
  cases db.writer id with
  | none => simp
  | some j => simp [Option.filter]

theorem settle_eq_some {id : EventId} (hne : j ≠ i) :
    db.settle i id = some j ↔ db.writer id = some j := by
  rw [settle, Option.filter_eq_some_iff, decide_eq_true_iff, and_iff_left hne]

/-! ### Events -/

omit [DecidableEq ι] in
/-- The rows after an `INSERT`, and whose they are. -/
theorem mem_insert (hash : EventContent → String) (batchKey : Option String)
    (events : List EventIn) {row : EventRow} {w : Option ι} :
    (row ∈ (db.insert i hash batchKey events).events.rows ∧
      (db.insert i hash batchKey events).writer row.id = w) ↔
      (row ∈ db.events.rows ∧ db.writer row.id = w) ∨
        (row ∈ db.events.returning hash batchKey events ∧ w = some i) := by
  have hinserted := db.events.inserted hash batchKey events
  have hids := (db.events.insertAll hash batchKey events).ids
  rw [hinserted.rows, List.map_append, List.nodup_append] at hids
  simp only [insert, hinserted.rows, List.mem_append]
  have hold (hrow : row ∈ db.events.rows) :
      row.id ∉ (db.events.returning hash batchKey events).map EventRow.id :=
    fun h ↦ hids.2.2 _ (List.mem_map_of_mem hrow) _ h rfl
  constructor
  · rintro ⟨hrow | hrow, hw⟩
    · rw [if_neg (hold hrow)] at hw
      exact .inl ⟨hrow, hw⟩
    · rw [if_pos (List.mem_map_of_mem hrow)] at hw
      exact .inr ⟨hrow, hw.symm⟩
  · rintro (⟨hrow, hw⟩ | ⟨hrow, rfl⟩)
    · rw [if_neg (hold hrow)]
      exact ⟨.inl hrow, hw⟩
    · rw [if_pos (List.mem_map_of_mem hrow)]
      exact ⟨.inr hrow, rfl⟩

/-- The rows a session leaves behind when it is rolled back, and whose they are. -/
theorem mem_rollback {session : BillingSession} (hown : Owns i db (.active session))
    {row : EventRow} {w : Option ι} (hw : w ≠ some i) :
    (row ∈ (db.rollback i session).events.rows ∧ (db.rollback i session).writer row.id = w) ↔
      row ∈ db.events.rows ∧ db.writer row.id = w := by
  have hnot (hrow : row ∈ db.events.rows) (hrow' : db.writer row.id ≠ some i) :
      row.id ∉ session.inserted.map EventRow.id := by
    intro hmem
    obtain ⟨own, hmem, hid⟩ := List.mem_map.mp hmem
    obtain ⟨hmem, hwriter⟩ := (hown.events own).mp hmem
    exact hrow' (hid ▸ hwriter)
  have hsettle : db.settle i row.id = w ↔ db.writer row.id = w ∨
      db.writer row.id = some i ∧ w = none := by
    cases w with
    | none => rw [settle_eq_none]; simp
    | some j => rw [settle_eq_some (by rintro rfl; exact hw rfl)]; simp
  simp only [rollback, EventStore.without, List.mem_filter, decide_eq_true_iff, hsettle]
  constructor
  · rintro ⟨⟨hrow, hid⟩, hwriter | ⟨hwriter, -⟩⟩
    · exact ⟨hrow, hwriter⟩
    · exact absurd (List.mem_map_of_mem ((hown.events row).mpr ⟨hrow, hwriter⟩)) hid
  · rintro ⟨hrow, hwriter⟩
    exact ⟨⟨hrow, hnot hrow (hwriter ▸ hw)⟩, .inl hwriter⟩

omit [DecidableEq ι] in
theorem committedEvents_insert (hash : EventContent → String) (batchKey : Option String)
    (events : List EventIn) {row : EventRow} :
    row ∈ (db.insert i hash batchKey events).committedEvents ↔ row ∈ db.committedEvents := by
  rw [mem_committedEvents, mem_committedEvents, mem_insert]
  simp

theorem committedEvents_rollback {session : BillingSession} (hown : Owns i db (.active session))
    {row : EventRow} :
    row ∈ (db.rollback i session).committedEvents ↔ row ∈ db.committedEvents := by
  rw [mem_committedEvents, mem_committedEvents, mem_rollback hown (by simp)]

/-! ### What turns keep -/

variable {old : List EventRow}

omit [DecidableEq ι] in
theorem Sound.insert (h : Sound old db) (hash : EventContent → String) (batchKey : Option String)
    (events : List EventIn) : Sound old (db.insert i hash batchKey events) where
  account := h.account
  held := h.held
  rows := h.rows
  events row := by rw [committedEvents_insert]; exact h.events row

theorem Sound.rollback {session : BillingSession} (h : Sound old db)
    (hown : Owns i db (.active session)) : Sound old (db.rollback i session) where
  account := h.account
  held held hmem := h.held held (release_eq_some.mp hmem).1
  rows := h.rows
  events row := by rw [committedEvents_rollback hown]; exact h.events row

theorem Sound.hold {a a' : Account} (h : Sound old db) (hlock : db.lock i = some a)
    (hadvances : a.Advances a') : Sound old (db.hold i a') where
  account := h.account
  held := by
    rintro _ ⟨⟩
    exact (view_of_lock hlock ▸ advances_view h.held i).trans hadvances
  rows := h.rows
  events := h.events

theorem settle_ne (id : EventId) : db.settle i id ≠ some i := by
  intro h
  rw [settle, Option.filter_eq_some_iff, decide_eq_true_iff] at h
  exact h.2 rfl

theorem Owns.rollback {session : BillingSession} {error : Option CaptureError}
    (h : Owns i db (.active session)) : Owns i (db.rollback i session) (.rolledBack error) where
  events row := by simp [BillingPhase.inserted, BillingDb.rollback, settle_ne]
  commits _ := h.commits (by simp)

/-- A commit adds what the session wrote. -/
theorem Sound.commit {org : Option Organization} {inserted : List EventRow} (h : Sound old db)
    (hown : Owns i db (.active ⟨[], org, inserted⟩)) :
    Sound old (db.commit i ⟨[], none, inserted⟩) where
  account := (advances_view h.held i).consistent h.account
  held held hmem := by
    have hview : (db.commit i ⟨[], none, inserted⟩).account = db.account := view_of_release hmem
    rw [hview]
    exact h.held held (release_eq_some.mp hmem).1
  rows := by
    obtain ⟨rows, hrows⟩ := (advances_view h.held i).rows
    simp only [BillingDb.commit, List.flatMap_append, ← h.rows, List.flatMap_singleton]
    rw [← hrows, List.drop_left]
  events row := by
    have hcommitted : row ∈ (db.commit i ⟨[], none, inserted⟩).committedEvents ↔
        row ∈ db.committedEvents ∨ row ∈ inserted := by
      rw [mem_committedEvents, mem_committedEvents]
      simp only [BillingDb.commit, settle_eq_none, and_or_left]
      exact or_congr_right (hown.events row).symm
    rw [hcommitted, h.events]
    simp [BillingDb.commit, or_and_right, exists_or, or_assoc]

omit [DecidableEq ι] in
/-- A session owns what it inserted, in a database that differs in other things. -/
theorem Owns.congr {db' : BillingDb ι} {phase phase' : BillingPhase} (h : Owns i db phase)
    (hevents : ∀ row, row ∈ db'.events.rows ∧ db'.writer row.id = some i ↔
      row ∈ db.events.rows ∧ db.writer row.id = some i)
    (hinserted : phase'.inserted = phase.inserted) (hphase : phase' ≠ .committed → phase ≠ .committed)
    (hcommits : ∀ commit ∈ db'.commits, commit ∈ db.commits ∨ commit.session ≠ i) :
    Owns i db' phase' where
  events row := by rw [hevents, hinserted]; exact h.events row
  commits hne commit hmem := (hcommits commit hmem).elim (h.commits (hphase hne) commit) id

end BillingDb

/-! ## Runs -/

section Runs

variable {env : BillingEnv} {ι : Type} [DecidableEq ι] {old : List EventRow} {i j : ι}
  {db db' : BillingDb ι} {phase phase' : BillingPhase} {m : BillingTurn}

/-- A turn keeps the database sound, and its session in possession of what it wrote. -/
theorem BillingEffect.keeps (h : BillingEffect env i db m phase db' phase')
    (hdb : db.Sound old) (hown : db.Owns i phase) : db'.Sound old ∧ db'.Owns i phase' := by
  cases h with
  | refuse request error =>
    exact ⟨hdb, hown.congr (fun _ ↦ Iff.rfl) rfl (by simp) fun _ ↦ .inl⟩
  | insert batchKey events unclaimed =>
    refine ⟨hdb.insert _ _ _, fun row ↦ ?_, fun _ ↦ hown.commits (by simp)⟩
    rw [BillingDb.mem_insert, ← hown.events row]
    simp [BillingPhase.inserted]
  | «begin» request todo other =>
    exact ⟨hdb, hown.congr (fun _ ↦ Iff.rfl) rfl (by simp) fun _ ↦ .inl⟩
  | get | skip | due =>
    exact ⟨hdb, hown.congr (fun _ ↦ Iff.rfl) rfl (by simp) fun _ ↦ .inl⟩
  | write statement todo org inserted a a' lock ledger =>
    exact ⟨hdb.hold lock (BillingEnv.advances_ledger ledger),
      hown.congr (fun _ ↦ Iff.rfl) rfl (by simp) fun _ ↦ .inl⟩
  | fail statement todo org inserted error =>
    have hown : db.Owns i (.active ⟨todo, org, inserted⟩) :=
      hown.congr (fun _ ↦ Iff.rfl) rfl (by simp) fun _ ↦ .inl
    exact ⟨hdb.rollback hown, hown.rollback⟩
  | commit org inserted =>
    refine ⟨hdb.commit hown, fun row ↦ ?_, fun hne ↦ absurd rfl hne⟩
    simp [BillingPhase.inserted, BillingDb.commit, BillingDb.settle_ne]
  | abort session => exact ⟨hdb.rollback hown, hown.rollback⟩

/-- A turn leaves the other sessions what they wrote. -/
theorem BillingEffect.frame (h : BillingEffect env i db m phase db' phase')
    (hown : db.Owns i phase) {other : BillingPhase} (hother : db.Owns j other) (hne : j ≠ i) :
    db'.Owns j other := by
  have hsome : some j ≠ some i := by simpa using hne
  cases h with
  | refuse | «begin» | get | skip | due => exact hother
  | write => exact hother.congr (fun _ ↦ Iff.rfl) rfl id fun _ ↦ .inl
  | insert batchKey events unclaimed =>
    refine hother.congr (fun row ↦ ?_) rfl id fun _ ↦ .inl
    rw [BillingDb.mem_insert, or_iff_left fun h ↦ hsome h.2]
  | fail statement todo org inserted error =>
    have hown : db.Owns i (.active ⟨todo, org, inserted⟩) :=
      hown.congr (fun _ ↦ Iff.rfl) rfl (by simp) fun _ ↦ .inl
    exact hother.congr (fun _ ↦ BillingDb.mem_rollback hown hsome) rfl id fun _ ↦ .inl
  | commit org inserted =>
    refine hother.congr (fun row ↦ ?_) rfl id fun commit hmem ↦ ?_
    · simp only [BillingDb.commit, BillingDb.settle_eq_some hne]
    · refine (List.mem_append.mp hmem).imp_right fun hmem ↦ ?_
      rw [List.mem_singleton.mp hmem]
      exact hne.symm
  | abort session =>
    exact hother.congr (fun _ ↦ BillingDb.mem_rollback hown hsome) rfl id fun _ ↦ .inl

/-- What every run keeps. -/
theorem inductive_sound (env : BillingEnv) (old : List EventRow) :
    Handlers.Inductive (env.handlers ι) (fun _ _ ↦ True) (BillingDb.Sound old) BillingDb.Owns where
  turn c i m db' phase' hc _ h :=
    (BillingEnv.turn_effect h).keeps hc.shared (hc.own i)
  frame c i m db' phase' j hc _ h hne :=
    (BillingEnv.turn_effect h).frame (hc.own i) (hc.own j) hne
  env c now db' hc _ h := by
    obtain ⟨-, heq⟩ := Option.ite_none_right_eq_some.mp h
    cases heq
    exact ⟨⟨hc.shared.account, hc.shared.held, hc.shared.rows, hc.shared.events⟩,
      fun i ↦ ⟨(hc.own i).events, (hc.own i).commits⟩⟩

/-- Nothing has happened yet: the ledger is empty, and no session is open. -/
structure Opening (c : Config ι (BillingDb ι) BillingPhase) : Prop where
  balance : c.shared.account.org.creditBalance = 0
  transactions : c.shared.account.transactions = []
  held : c.shared.held = none
  writer : ∀ id, c.shared.writer id = none
  commits : c.shared.commits = []
  sessions : ∀ i, c.own i = .ahead

omit [DecidableEq ι] in
theorem Opening.meets {c : Config ι (BillingDb ι) BillingPhase} (h : Opening c) :
    Handlers.Meets (BillingDb.Sound c.shared.events.rows) BillingDb.Owns c where
  shared :=
    { account := ⟨by rw [h.balance, h.transactions]; rfl, h.balance.ge, by simp [h.transactions]⟩
      held := by simp [h.held]
      rows := by rw [h.transactions, h.commits]; rfl
      events := by simp [BillingDb.mem_committedEvents, h.writer, h.commits] }
  own i :=
    { events := by simp [h.sessions, h.writer, BillingPhase.inserted]
      commits := by simp [h.commits] }

/-- What is committed, in a run that began with the events `old`. -/
structure LedgerConsistent (env : BillingEnv) (old : List EventRow)
    (c : Config ι (BillingDb ι) BillingPhase) : Prop where
  /-- The balance is the sum of the transactions and not negative, and every transaction carries
  the running sum. -/
  account : c.shared.account.Consistent
  /-- The transactions are those of the commits, in their order. -/
  rows : c.shared.account.transactions = c.shared.commits.flatMap Commit.rows
  /-- The events are those there were, and those of the commits. -/
  events : ∀ row, row ∈ c.shared.committedEvents ↔
    row ∈ old ∨ ∃ commit ∈ c.shared.commits, row ∈ commit.events
  /-- A session that is rolled back has committed nothing. -/
  rejected : ∀ i error, c.own i = .rolledBack error →
    ∀ commit ∈ c.shared.commits, commit.session ≠ i
  /-- Only commits change what is committed. -/
  unchanged : ∀ x c', (env.handlers ι).step c x = some c' →
    (∃ i, x = .turn i .proceed ∧ c'.own i = .committed) ∨
    (c'.shared.account = c.shared.account ∧
      ∀ row, row ∈ c'.shared.committedEvents ↔ row ∈ c.shared.committedEvents)

/-- A turn that is no commit changes nothing that is committed. -/
theorem BillingEffect.unchanged (h : BillingEffect env i db m phase db' phase')
    (hown : db.Owns i phase) : (m = .proceed ∧ phase' = .committed) ∨
      (db'.account = db.account ∧ ∀ row, row ∈ db'.committedEvents ↔ row ∈ db.committedEvents) := by
  cases h with
  | refuse | «begin» | get | skip | due => exact .inr ⟨rfl, fun _ ↦ Iff.rfl⟩
  | write => exact .inr ⟨rfl, fun _ ↦ Iff.rfl⟩
  | insert batchKey events unclaimed =>
    exact .inr ⟨rfl, fun _ ↦ BillingDb.committedEvents_insert _ _ _⟩
  | fail statement todo org inserted error =>
    have hown : db.Owns i (.active ⟨todo, org, inserted⟩) :=
      hown.congr (fun _ ↦ Iff.rfl) rfl (by simp) fun _ ↦ .inl
    exact .inr ⟨rfl, fun _ ↦ BillingDb.committedEvents_rollback hown⟩
  | commit org inserted => exact .inl ⟨rfl, rfl⟩
  | abort session => exact .inr ⟨rfl, fun _ ↦ BillingDb.committedEvents_rollback hown⟩

/-- **The credit ledger is consistent** in every state of every run. -/
theorem credit_ledger_consistent {c₀ c : Config ι (BillingDb ι) BillingPhase}
    {moves : List (Move ι BillingTurn Timestamp)} (h₀ : Opening c₀)
    (hrun : (env.handlers ι).Runs (fun _ _ ↦ True) c₀ moves c) :
    LedgerConsistent env c₀.shared.events.rows c := by
  have hc := (inductive_sound env _).runs h₀.meets hrun
  refine ⟨hc.shared.account, hc.shared.rows, hc.shared.events, fun i error hi ↦ ?_,
    fun x c' hstep ↦ ?_⟩
  · exact (hc.own i).commits (by rw [hi]; simp)
  · rcases Handlers.step_eq_some.mp hstep with ⟨i, m, db', phase', rfl, hturn, rfl⟩ |
      ⟨now, db', rfl, henv, rfl⟩
    · rcases (BillingEnv.turn_effect hturn).unchanged (hc.own i) with ⟨rfl, rfl⟩ | h
      · exact .inl ⟨i, rfl, Function.update_self ..⟩
      · exact .inr h
    · obtain ⟨-, heq⟩ := Option.ite_none_right_eq_some.mp henv
      cases heq
      exact .inr ⟨rfl, fun _ ↦ Iff.rfl⟩

end Runs

/-! ## Samples -/

namespace Sample

/-- Captures of one organization, with two free credits a month. -/
def billing : BillingEnv := ⟨"org", fun _ ↦ "hash", 2⟩

/-- An organization that is not subscribed, before anything happened to it. -/
def opening : Config ℕ (BillingDb ℕ) BillingPhase where
  shared :=
    { account := ⟨⟨0, none, none, none, none⟩, []⟩
      held := none
      events := intake.events
      writer _ := none
      clock := 0
      commits := [] }
  own _ := .ahead

/-- A turn of a session. -/
def go (i : ℕ) : Move ℕ BillingTurn Timestamp := .turn i .proceed

/-- Session `0` captures three events and fails at the third, while session `1` waits to grant
five credits. -/
def rejectedCapture : List (Move ℕ BillingTurn Timestamp) :=
  [.turn 0 (.open (.capture none [note "a", note "b", note "c"])),
    .turn 1 (.open (.grant 5 .topupPurchase none)), go 1] ++
    List.replicate 10 (go 0) ++ [go 1, go 1]

end Sample

theorem opening_sample : Opening Sample.opening :=
  ⟨rfl, rfl, rfl, fun _ ↦ rfl, rfl, fun _ ↦ rfl⟩

/-- A capture that fails at its third event leaves five credits that another session grants. -/
theorem credit_ledger_sample : ∃ c, (Sample.billing.handlers ℕ).run Sample.opening
      Sample.rejectedCapture = some c ∧
    c.own 0 = .rolledBack (some (.credits .insufficientCredits)) ∧
    c.shared.account.org.creditBalance = 5 ∧
    LedgerConsistent Sample.billing Sample.opening.shared.events.rows c := by
  refine ⟨_, rfl, rfl, rfl, ?_⟩
  have hrun : (Sample.billing.handlers ℕ).run Sample.opening Sample.rejectedCapture = some _ := rfl
  exact credit_ledger_consistent opening_sample (Handlers.runs_iff.mpr hrun)

end Haki
