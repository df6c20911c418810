import Haki.Ledger.Capture

/-!
# Webhooks of the payment provider

`_handle_dodo_event` and `_handle_dodo_topup` (`app.api.routes.billing`): what a
verified delivery does to the organizations.  A delivery is given by what its
handler reads in the payload; the end of the period is left out.
-/

namespace Haki

open Data

/-- `CLOUD_PLANS`: the monthly credits of a plan. -/
def cloudPlan : String → Option Int
  | "starter" => some 20000
  | "growth" => some 50000
  | "scale" => some 150000
  | _ => none

/-- The products of the provider, and what the webhooks look up. -/
structure DodoEnv where
  productStarter : String
  productGrowth : String
  productScale : String
  payg1000 : String
  payg5000 : String
  payg20000 : String
  /-- The organizations, in the order of the table. -/
  orgIds : List String
  /-- `uuid.UUID`, and the organization id it stands for. -/
  parseOrgId : String → Option String

/-- The subscription object of a delivery. -/
structure DodoSubscription where
  /-- `subscription_id`, empty when it is missing. -/
  subscriptionId : String
  /-- `metadata.haki_org_id`. -/
  orgId : Option String
  status : Option String
  productId : String

/-- The payment object of a delivery, with the products of its cart. -/
structure DodoPayment where
  orgId : Option String
  cart : List String

/-- A delivery. -/
inductive DodoEvent where
  /-- `subscription.*`. -/
  | subscription (name webhookId : String) (subscription : Option DodoSubscription)
  /-- `payment.succeeded`. -/
  | payment (webhookId : String) (payment : Option DodoPayment)
  /-- Any other event is acknowledged. -/
  | other

/-- `_DODO_STATUS_BY_EVENT`. -/
def dodoStatusByEvent : String → Option String
  | "subscription.active" | "subscription.renewed" | "subscription.unpaused"
  | "subscription.plan_changed" => some "active"
  | "subscription.past_due" | "subscription.on_hold" => some "past_due"
  | "subscription.paused" => some "paused"
  | "subscription.cancelled" | "subscription.expired" | "subscription.failed" => some "cancelled"
  | _ => none

/-- The provisioned organizations. -/
abbrev Accounts := String → Option Account

namespace DodoEnv

variable (env : DodoEnv)

/-- `PRODUCT_TO_PLAN.get`. -/
def productToPlan (productId : String) : Option String :=
  if productId = env.productScale then some "scale"
  else if productId = env.productGrowth then some "growth"
  else if productId = env.productStarter then some "starter"
  else none

/-- `_DODO_PAYG_PRODUCTS`. -/
def packCredits (productId : String) : Int :=
  if productId = env.payg20000 then 20000
  else if productId = env.payg5000 then 5000
  else if productId = env.payg1000 then 1000
  else 0

/-- The organization that the metadata name. -/
def namedOrg (accounts : Accounts) (orgId : Option String) : Option String :=
  ((orKey orgId).bind env.parseOrgId).filter fun id ↦ (accounts id).isSome

/-- The organization of a subscription: named by the metadata, or found by its subscription. -/
def organizationOf (accounts : Accounts) (subscription : DodoSubscription) : Option String :=
  (env.namedOrg accounts subscription.orgId).or <|
    (orKey (some subscription.subscriptionId)).bind fun subscriptionId ↦
      env.orgIds.find? fun id ↦
        (accounts id).any fun a ↦ a.org.dodoSubscriptionId = some subscriptionId

/-- `PRODUCT_TO_PLAN.get(product_id) or org.subscription_plan or "starter"`. -/
def planKey (subscription : DodoSubscription) (org : Organization) : String :=
  ((env.productToPlan subscription.productId).or (orKey org.subscriptionPlan)).getD "starter"

/-- The subscription columns that every subscription event assigns. -/
def assignSubscription (name : String) (subscription : DodoSubscription) (a : Account) : Account :=
  { a with org := { a.org with
      dodoSubscriptionId := (orKey (some subscription.subscriptionId)).or a.org.dodoSubscriptionId
      subscriptionStatus :=
        ((orKey subscription.status).or (dodoStatusByEvent name)).or a.org.subscriptionStatus } }

/-- `org.subscription_plan = plan`. -/
def assignPlan (plan : String) (a : Account) : Account :=
  { a with org := { a.org with subscriptionPlan := some plan } }

/-- `webhook_id or subscription_id`. -/
def grantReference (webhookId : String) (subscription : DodoSubscription) : CreditReference :=
  .provider ((orKey (some webhookId)).getD subscription.subscriptionId)

/-- The monthly credits of a plan replace the balance, when it has any. -/
def renew (now : Timestamp) (plan : String) (reference : CreditReference) (a : Account) :
    Except CreditError Account :=
  if 0 < (cloudPlan plan).getD 0 then
    a.resetMonthlyCredits now .subscriptionGrant (some reference) ((cloudPlan plan).getD 0)
  else .ok a

/-- `_handle_dodo_event`, once it has the organization. -/
def applySubscription (now : Timestamp) (name webhookId : String)
    (subscription : DodoSubscription) (a : Account) : Except CreditError Account :=
  let assigned := assignSubscription name subscription a
  if name = "subscription.active" ∨ name = "subscription.renewed" then
    (renew now (env.planKey subscription a.org) (grantReference webhookId subscription)
      assigned).map (assignPlan (env.planKey subscription a.org))
  else if name = "subscription.plan_changed" then
    .ok (((env.productToPlan subscription.productId).map (assignPlan · assigned)).getD assigned)
  else .ok assigned

/-- No other organization has the subscription: `dodo_subscription_id` is unique. -/
def Unclaimed (accounts : Accounts) (id : String) (subscription : DodoSubscription) : Prop :=
  ∀ other ∈ env.orgIds, other ≠ id → ∀ a ∈ accounts other,
    ∀ subscriptionId ∈ orKey (some subscription.subscriptionId),
      a.org.dodoSubscriptionId ≠ some subscriptionId

instance (accounts : Accounts) (id : String) (subscription : DodoSubscription) :
    Decidable (env.Unclaimed accounts id subscription) :=
  inferInstanceAs (Decidable (∀ other ∈ env.orgIds, _ → ∀ a ∈ accounts other, ∀ _ ∈ orKey _, _))

/-- The credits of a cart. -/
def cartCredits (cart : List String) : Int := (cart.map env.packCredits).sum

/-- A handler's change to an organization, rolled back when it raises. -/
def change (accounts : Accounts) (id : String) (f : Account → Except CreditError Account) :
    Accounts :=
  match (accounts id).map f with
  | some (.ok a) => Function.update accounts id (some a)
  | _ => accounts

/-- `dodo_webhook`, once the signature is verified. -/
def deliver (now : Timestamp) (accounts : Accounts) : DodoEvent → Accounts
  | .subscription name webhookId (some subscription) =>
    match env.organizationOf accounts subscription with
    | some id =>
      if env.Unclaimed accounts id subscription then
        change accounts id (env.applySubscription now name webhookId subscription)
      else accounts
    | none => accounts
  | .payment webhookId (some payment) =>
    match env.namedOrg accounts payment.orgId with
    | some id =>
      if env.cartCredits payment.cart ≤ 0 then accounts
      else change accounts id fun a ↦
        a.grantCredits now .topupPurchase (some (.provider webhookId)) (env.cartCredits payment.cart)
    | none => accounts
  | .subscription _ _ none | .payment _ none | .other => accounts

end DodoEnv

/-! ## Runs -/

/-- A delivery, a redelivery, or a capture. -/
inductive BillingStep where
  | deliver (now : Timestamp) (event : DodoEvent)
  | redeliver (now : Timestamp) (event : DodoEvent)
  | capture (now : Timestamp) (batchKey : Option String) (events : List EventIn)

/-- A redelivery. -/
def BillingStep.Redelivers : BillingStep → Prop
  | .redeliver _ _ => True
  | _ => False

instance : DecidablePred BillingStep.Redelivers
  | .redeliver _ _ => isTrue trivial
  | .deliver _ _ | .capture _ _ _ => isFalse id

/-- A step: a capture that is refused changes nothing. -/
def billingStep (env : DodoEnv) (hash : EventContent → String) (freeMonthlyCredits : Int)
    (s : CaptureState) : BillingStep → CaptureState
  | .deliver now event | .redeliver now event =>
    { s with accounts := env.deliver now s.accounts event }
  | .capture now batchKey events =>
    match capture hash now freeMonthlyCredits batchKey events s with
    | .ok (_, s') => s'
    | .error _ => s

/-- A run of deliveries and captures. -/
def billingRun (env : DodoEnv) (hash : EventContent → String) (freeMonthlyCredits : Int) :
    CaptureState → List BillingStep → CaptureState :=
  List.foldl (billingStep env hash freeMonthlyCredits)

end Haki
