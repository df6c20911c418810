import Haki.Properties.Balance

/-!
# The window of the free grant

`maybe_grant_lazy_free_credits` checks the window on an object that may be
stale, and grants after it has locked the row.  Free grants are thirty days
apart as long as no row that is locked for a grant has been granted to since
the check.
-/

namespace Haki

open Control

/-! ## Accounts -/

namespace Account

/-- The times of the free grants of an account. -/
def freeGrants (a : Account) : List Timestamp :=
  (a.transactions.filter fun t ↦ t.reason = .monthlyFreeGrant).map CreditTransaction.createdAt

/-- No two free grants are less than thirty days apart. -/
def FreeGrantsApart (a : Account) : Prop :=
  a.freeGrants.Pairwise fun t t' ↦ freeGrantInterval ≤ t' - t

instance (a : Account) : Decidable a.FreeGrantsApart :=
  inferInstanceAs (Decidable (List.Pairwise _ _))

/-- Free grants that are apart, the last one not later than the column says. -/
structure Spaced (a : Account) : Prop where
  apart : a.FreeGrantsApart
  stamped : ∀ t ∈ a.freeGrants, ∃ last ∈ a.org.freeCreditsGrantedAt, t ≤ last

variable {a a' : Account} {now : Timestamp} {reason : CreditReason}
  {reference : Option CreditReference} {amount balance : Int}

theorem freeGrants_post : (a.post now reason reference balance).freeGrants =
    if reason = .monthlyFreeGrant then a.freeGrants ++ [now] else a.freeGrants := by
  rw [freeGrants, freeGrants, post, List.filter_append, List.map_append]
  split
  next h => simp [h]
  next h => simp [h]

/-- A debit is no free grant. -/
theorem spaced_debit (ha : a.Spaced)
    (h : a.tryDebitCredit now .captureDebit reference = .ok a') : a'.Spaced := by
  rw [tryDebitCredit] at h
  split at h
  · cases h
  · cases h
    constructor
    · rw [FreeGrantsApart, freeGrants_post, if_neg (by decide)]
      exact ha.apart
    · rw [freeGrants_post, if_neg (by decide)]
      exact ha.stamped

/-- A grant to a row whose window is open. -/
theorem spaced_grantFree (ha : a.Spaced) (hopen : a.org.Grantable now)
    (h : a.grantCredits now .monthlyFreeGrant none amount = .ok a') : (a'.stamp now).Spaced := by
  have hlast : ∀ t ∈ a.freeGrants, freeGrantInterval ≤ now - t := by
    intro t ht
    obtain ⟨last, hlast, hle⟩ := ha.stamped t ht
    exact (not_lt.mp (hopen.2 last hlast)).trans (sub_le_sub_left hle now)
  have hgrants : (a'.stamp now).freeGrants = a.freeGrants ++ [now] := by
    rw [grantCredits] at h
    split at h
    · cases h
    · cases h
      exact freeGrants_post
  constructor
  · rw [FreeGrantsApart, hgrants, List.pairwise_append]
    exact ⟨ha.apart, List.pairwise_singleton .., by simpa using hlast⟩
  · rw [hgrants]
    intro t ht
    refine ⟨now, rfl, ?_⟩
    rcases List.mem_append.mp ht with ht | ht
    · have hpos : 0 < freeGrantInterval := by decide
      exact (sub_pos.mp (hpos.trans_le (hlast t ht))).le
    · rw [List.mem_singleton.mp ht]

end Account

/-! ## Runs of captures -/

/-- The statements of a capture. -/
def Statement.OfCapture : Statement → Prop
  | .get | .checkWindow | .grantFree _ | .tryDebitCredit .captureDebit _ => True
  | _ => False

namespace BillingPhase

/-- What a session still does. -/
def todo : BillingPhase → List Statement
  | .active session => session.todo
  | _ => []

/-- The free grant a session makes next, by the time of its check. -/
def nextFreeGrant : BillingPhase → Option Timestamp
  | .active ⟨.grantFree now :: _, _, _⟩ => some now
  | _ => none

end BillingPhase

section Ledger

variable {env : BillingEnv}

/-- The statements of a capture keep free grants apart, when a free grant finds its window open. -/
theorem spaced_ledger {clock : Timestamp} {statement : Statement} {a a' : Account}
    (hcapture : statement.OfCapture)
    (hopen : ∀ now, statement = .grantFree now → a.org.Grantable now) (ha : a.Spaced)
    (h : env.ledger clock statement a = .ok a') : a'.Spaced := by
  cases statement with
  | get | checkWindow =>
    cases h
    exact ha
  | grantFree now =>
    obtain ⟨granted, hgranted, h⟩ := bind_eq_ok.mp h
    cases h
    exact Account.spaced_grantFree ha (hopen now rfl) hgranted
  | tryDebitCredit reason reference =>
    cases reason with
    | captureDebit => exact Account.spaced_debit ha h
    | _ => cases hcapture
  | _ => cases hcapture

theorem ofCapture_charges (results : List (EventRow × Bool)) :
    ∀ statement ∈ env.charges results, statement.OfCapture := by
  intro statement hmem
  obtain ⟨result, -, hmem⟩ := List.mem_flatMap.mp hmem
  simp only [List.mem_cons, List.not_mem_nil, or_false] at hmem
  rcases hmem with rfl | rfl | rfl <;> trivial

end Ledger

section Runs

variable {env : BillingEnv} {ι : Type} [DecidableEq ι] {i j : ι} {db db' : BillingDb ι}
  {phase phase' : BillingPhase} {m : BillingTurn}

/-- No session is opened for anything but a capture. -/
def OnlyCaptures : Move ι BillingTurn Timestamp → Prop
  | .turn _ (.open (.capture _ _)) => True
  | .turn _ (.open _) => False
  | _ => True

instance : DecidablePred (OnlyCaptures (ι := ι))
  | .turn _ (.open (.capture _ _)) | .turn _ .proceed | .turn _ .abort | .env _ => isTrue trivial
  | .turn _ (.open (.grant _ _ _)) | .turn _ (.open (.reset _ _ _ _ _)) => isFalse id

/-- A row that is locked for a free grant is one the check would still pass. -/
def WindowOpen (c : Config ι (BillingDb ι) BillingPhase) :
    Move ι BillingTurn Timestamp → Prop
  | .turn i .proceed => ∀ now ∈ (c.own i).nextFreeGrant, ∀ a ∈ c.shared.lock i,
    a.org.Grantable now
  | _ => True

instance : ∀ (c : Config ι (BillingDb ι) BillingPhase) x, Decidable (WindowOpen c x)
  | _, .turn _ .proceed => inferInstanceAs (Decidable (∀ now ∈ _, ∀ a ∈ _, _))
  | _, .turn _ (.open _) | _, .turn _ .abort | _, .env _ => isTrue trivial

/-- Free grants are apart, committed or not. -/
structure BillingDb.Spaced (db : BillingDb ι) : Prop where
  account : db.account.Spaced
  held : ∀ h ∈ db.held, h.2.Spaced

theorem BillingDb.Spaced.view (h : db.Spaced) (i : ι) : (db.view i).Spaced := by
  rw [BillingDb.view]
  split
  next j a hheld =>
    split
    · exact h.held _ hheld
    · exact h.account
  next => exact h.account

theorem BillingDb.Spaced.rollback (h : db.Spaced) (i : ι) (session : BillingSession) :
    (db.rollback i session).Spaced :=
  ⟨h.account, fun held hmem ↦ h.held held (BillingDb.release_eq_some.mp hmem).1⟩

/-- A turn keeps free grants apart, and its session a capture. -/
theorem BillingEffect.spaced (h : BillingEffect env i db m phase db' phase')
    (hcapture : OnlyCaptures (.turn i m))
    (hopen : m = .proceed → ∀ now ∈ phase.nextFreeGrant, ∀ a ∈ db.lock i, a.org.Grantable now)
    (hdb : db.Spaced)
    (htodo : ∀ statement ∈ phase.todo, statement.OfCapture) :
    db'.Spaced ∧ ∀ statement ∈ phase'.todo, statement.OfCapture := by
  have htail {statement : Statement} {todo : List Statement} {org : Option Organization}
      {inserted : List EventRow} (hphase : phase = .active ⟨statement :: todo, org, inserted⟩) :
      ∀ statement ∈ todo, statement.OfCapture := by
    subst hphase
    exact fun other hmem ↦ htodo other (List.mem_cons_of_mem _ hmem)
  cases h with
  | refuse request error => exact ⟨hdb, by simp [BillingPhase.todo]⟩
  | insert batchKey events unclaimed => exact ⟨⟨hdb.account, hdb.held⟩, ofCapture_charges _⟩
  | «begin» request todo other =>
    cases request with
    | capture batchKey events => exact absurd rfl (other batchKey events)
    | _ => cases hcapture
  | get todo org org' inserted => exact ⟨hdb, htail rfl⟩
  | skip todo org inserted => exact ⟨hdb, htail rfl⟩
  | due todo org inserted => exact ⟨hdb, List.forall_mem_cons.mpr ⟨trivial, htail rfl⟩⟩
  | write statement todo org inserted a a' lock ledger =>
    have ha : a.Spaced := BillingDb.view_of_lock lock ▸ hdb.view i
    have ha' : a'.Spaced := by
      refine spaced_ledger (htodo statement List.mem_cons_self) (fun now hnow ↦ ?_) ha ledger
      subst hnow
      exact hopen rfl now rfl a lock
    refine ⟨⟨hdb.account, ?_⟩, htail rfl⟩
    rintro _ ⟨⟩
    exact ha'
  | fail statement todo org inserted error =>
    exact ⟨hdb.rollback i _, by simp [BillingPhase.todo]⟩
  | commit org inserted =>
    refine ⟨⟨hdb.view i, fun held hmem ↦ ?_⟩, by simp [BillingPhase.todo]⟩
    exact hdb.held held (BillingDb.release_eq_some.mp hmem).1
  | abort session => exact ⟨hdb.rollback i _, by simp [BillingPhase.todo]⟩

/-- What runs of captures keep. -/
theorem inductive_spaced (env : BillingEnv) :
    Handlers.Inductive (env.handlers ι) (fun c x ↦ OnlyCaptures x ∧ WindowOpen c x)
      BillingDb.Spaced fun _ _ phase ↦ ∀ statement ∈ phase.todo, statement.OfCapture where
  turn c i m db' phase' hc hC h :=
    (BillingEnv.turn_effect h).spaced hC.1 (by rintro rfl; exact hC.2) hc.shared (hc.own i)
  frame c i m db' phase' j hc _ _ _ := hc.own j
  env c now db' hc _ h := by
    obtain ⟨-, heq⟩ := Option.ite_none_right_eq_some.mp h
    cases heq
    exact ⟨⟨hc.shared.account, hc.shared.held⟩, hc.own⟩

/-- No session is open, and free grants are apart. -/
structure Resting (c : Config ι (BillingDb ι) BillingPhase) : Prop where
  account : c.shared.account.Spaced
  held : c.shared.held = none
  sessions : ∀ i, c.own i = .ahead

/-- **Free grants are apart** in every run of captures whose free grants find their window open. -/
theorem free_grants_apart {c₀ c : Config ι (BillingDb ι) BillingPhase}
    {moves : List (Move ι BillingTurn Timestamp)} (h₀ : Resting c₀)
    (hrun : (env.handlers ι).Runs (fun c x ↦ OnlyCaptures x ∧ WindowOpen c x) c₀ moves c) :
    c.shared.account.FreeGrantsApart := by
  have hmeets : Handlers.Meets BillingDb.Spaced
      (fun _ _ phase ↦ ∀ statement ∈ phase.todo, statement.OfCapture) c₀ :=
    ⟨⟨h₀.account, by simp [h₀.held]⟩, fun i ↦ by simp [h₀.sessions, BillingPhase.todo]⟩
  exact ((inductive_spaced env).runs hmeets hrun).shared.account.apart

end Runs

/-! ## Samples -/

namespace Sample

/-- A session captures one event. -/
def captureOne (i : ℕ) (key : String) : Move ℕ BillingTurn Timestamp :=
  .turn i (.open (.capture none [note key]))

/-- Two captures, one after the other. -/
def capturesInTurn : List (Move ℕ BillingTurn Timestamp) :=
  captureOne 0 "a" :: List.replicate 5 (go 0) ++ captureOne 1 "b" :: List.replicate 4 (go 1)

/-- Two captures whose checks both come before the first grant. -/
def capturesAtOnce : List (Move ℕ BillingTurn Timestamp) :=
  [captureOne 0 "a", captureOne 1 "b", go 0, go 1, go 0, go 1] ++
    List.replicate 3 (go 0) ++ List.replicate 3 (go 1)

end Sample

theorem resting_sample : Resting Sample.opening :=
  ⟨⟨List.Pairwise.nil, by rintro _ ⟨⟩⟩, rfl, fun _ ↦ rfl⟩

/-- Two captures one after the other. -/
theorem free_grants_apart_sample : ∃ c, (Sample.billing.handlers ℕ).run Sample.opening
      Sample.capturesInTurn = some c ∧ c.shared.account.FreeGrantsApart := by
  have hrun : ((Sample.billing.handlers ℕ).run Sample.opening
    Sample.capturesInTurn).isSome := by decide
  obtain ⟨c, hc⟩ := Option.isSome_iff_exists.mp hrun
  exact ⟨c, hc, free_grants_apart resting_sample (Handlers.runs_of_allMeet hc (by decide))⟩

/-- Two captures that both check before either grants are both granted to. -/
theorem free_grants_at_once : ∃ c, (Sample.billing.handlers ℕ).run Sample.opening
      Sample.capturesAtOnce = some c ∧
    ¬ Sample.opening.shared.account.org.Subscribed ∧ (∀ x ∈ Sample.capturesAtOnce, OnlyCaptures x) ∧
    c.shared.account.freeGrants = [0, 0] ∧ ¬ c.shared.account.FreeGrantsApart := by
  exact ⟨_, rfl, by decide, by decide, rfl, by decide⟩

end Haki
