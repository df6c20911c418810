import Haki.Models

/-!
# The credit ledger

What the functions of `app.billing.credits` do to an organization and to its
credit transactions, each on the row it has locked.  An error is a raised
exception: the database transaction it happens in is rolled back.
-/

namespace Haki

/-- `reason` of a credit transaction. -/
inductive CreditReason where
  | signupGrant | monthlyFreeGrant | subscriptionGrant | topupPurchase | captureDebit
deriving DecidableEq, Repr

/-- `reference` of a credit transaction. -/
inductive CreditReference where
  /-- The captured event of a debit. -/
  | event (id : EventId)
  /-- The id a payment provider gave. -/
  | provider (id : String)
deriving DecidableEq, Repr

/-- An organization. -/
structure Organization where
  creditBalance : Int
  freeCreditsGrantedAt : Option Timestamp
  subscriptionStatus : Option String
  subscriptionPlan : Option String
  dodoSubscriptionId : Option String
deriving DecidableEq, Repr

/-- A credit transaction of an organization. -/
structure CreditTransaction where
  delta : Int
  reason : CreditReason
  reference : Option CreditReference
  balanceAfter : Int
  /-- When it was written. -/
  createdAt : Timestamp
deriving DecidableEq, Repr

/-- An organization and its credit transactions, oldest first. -/
structure Account where
  org : Organization
  transactions : List CreditTransaction
deriving DecidableEq, Repr

/-- Why a billing function raises. -/
inductive CreditError where
  /-- `ValueError`: an amount is out of range. -/
  | badAmount
  /-- `insufficient_credits`. -/
  | insufficientCredits
deriving DecidableEq, Repr

/-- `_FREE_GRANT_INTERVAL`: thirty days. -/
def freeGrantInterval : Timestamp := 30 * 86400 * 1000000

namespace Organization

/-- `subscription_status in ACTIVE_SUBSCRIPTION_STATUSES`. -/
def Subscribed (org : Organization) : Prop :=
  org.subscriptionStatus = some "active" ∨ org.subscriptionStatus = some "trialing"

instance (org : Organization) : Decidable org.Subscribed := inferInstanceAs (Decidable (_ ∨ _))

/-- The window check of `maybe_grant_lazy_free_credits`. -/
def Grantable (org : Organization) (now : Timestamp) : Prop :=
  ¬ org.Subscribed ∧ ∀ t ∈ org.freeCreditsGrantedAt, ¬ now - t < freeGrantInterval

instance (org : Organization) (now : Timestamp) : Decidable (org.Grantable now) :=
  inferInstanceAs (Decidable (_ ∧ _))

end Organization

namespace Account

variable (a : Account) (now : Timestamp) (reason : CreditReason)
  (reference : Option CreditReference)

/-- A new balance, and the transaction that accounts for it. -/
def post (balance : Int) : Account where
  org := { a.org with creditBalance := balance }
  transactions := a.transactions ++
    [⟨balance - a.org.creditBalance, reason, reference, balance, now⟩]

/-- `grant_credits`. -/
def grantCredits (amount : Int) : Except CreditError Account :=
  if amount ≤ 0 then .error .badAmount
  else .ok (a.post now reason reference (a.org.creditBalance + amount))

/-- `reset_monthly_credits`: without a change there is no transaction. -/
def resetMonthlyCredits (amount : Int) : Except CreditError Account :=
  if amount < 0 then .error .badAmount
  else if amount - a.org.creditBalance = 0 then .ok a
  else .ok (a.post now reason reference amount)

/-- `try_debit_credit`, whose caller raises when it returns false. -/
def tryDebitCredit : Except CreditError Account :=
  if a.org.creditBalance < 1 then .error .insufficientCredits
  else .ok (a.post now reason reference (a.org.creditBalance - 1))

/-- `free_credits_granted_at = now`. -/
def stamp : Account :=
  { a with org := { a.org with freeCreditsGrantedAt := some now } }

/-- `maybe_grant_lazy_free_credits`. -/
def maybeGrantLazyFreeCredits (freeMonthlyCredits : Int) : Except CreditError Account :=
  if a.org.Grantable now then do
    let granted ← a.grantCredits now .monthlyFreeGrant none freeMonthlyCredits
    pure (granted.stamp now)
  else .ok a

end Account

end Haki
