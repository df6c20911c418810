import Haki.Billing.Dodo
import Haki.Control.Fold
import Haki.Properties.Intake

/-!
# Redelivered webhooks

No handler looks for the reference of a delivery among the transactions, so a
redelivery is handled like a first one.  It changes nothing where the
organization already is as the delivery leaves it.  Only whether a status is an
active one matters to what comes later: `Account.plain` forgets the rest of it.
-/

namespace Haki

open Data Control

/-! ## What matters of an account -/

namespace Organization

/-- An organization with one status for all that are subscribed, and none for the others. -/
def plain (org : Organization) : Organization :=
  { org with subscriptionStatus := if org.Subscribed then some "active" else none }

variable {org : Organization}

theorem subscribed_plain : org.plain.Subscribed ↔ org.Subscribed := by
  rw [Subscribed, plain]
  by_cases h : org.Subscribed <;> simp [h]

theorem grantable_plain (now : Timestamp) : org.plain.Grantable now ↔ org.Grantable now := by
  rw [Grantable, Grantable, subscribed_plain]
  rfl

/-- Two organizations that differ in their status, but not in whether they are subscribed. -/
theorem plain_congr {status : Option String}
    (h : ({ org with subscriptionStatus := status } : Organization).Subscribed ↔ org.Subscribed) :
    ({ org with subscriptionStatus := status } : Organization).plain = org.plain := by
  rw [plain, plain]
  simp only [h]

theorem plain_plain (org : Organization) : org.plain.plain = org.plain :=
  plain_congr subscribed_plain

end Organization

namespace Account

/-- An account with the plain organization. -/
def plain (a : Account) : Account := { a with org := a.org.plain }

variable {a b : Account} {now : Timestamp} {reason : CreditReason}
  {reference : Option CreditReference} {amount : Int}

theorem plain_plain (a : Account) : a.plain.plain = a.plain := by
  rw [plain, plain, Organization.plain_plain]

theorem map_plain_grantCredits : (a.grantCredits now reason reference amount).map plain =
    a.plain.grantCredits now reason reference amount := by
  rw [grantCredits, grantCredits]
  split <;> rfl

theorem map_plain_resetMonthlyCredits :
    (a.resetMonthlyCredits now reason reference amount).map plain =
      a.plain.resetMonthlyCredits now reason reference amount := by
  rw [resetMonthlyCredits, resetMonthlyCredits]
  split
  · rfl
  · change Except.map plain (if amount - a.org.creditBalance = 0 then _ else _) =
      if amount - a.org.creditBalance = 0 then _ else _
    split <;> rfl

theorem map_plain_tryDebitCredit : (a.tryDebitCredit now reason reference).map plain =
    a.plain.tryDebitCredit now reason reference := by
  rw [tryDebitCredit, tryDebitCredit]
  change Except.map plain (if a.org.creditBalance < 1 then _ else _) =
    if a.org.creditBalance < 1 then _ else _
  split <;> rfl

theorem map_plain_maybeGrantLazyFreeCredits :
    (a.maybeGrantLazyFreeCredits now amount).map plain =
      a.plain.maybeGrantLazyFreeCredits now amount := by
  rw [maybeGrantLazyFreeCredits, maybeGrantLazyFreeCredits]
  have hplain : a.plain.org.Grantable now ↔ a.org.Grantable now :=
    Organization.grantable_plain now
  by_cases h : a.org.Grantable now
  · rw [if_pos h, if_pos (hplain.mpr h), ← map_plain_grantCredits]
    cases a.grantCredits now .monthlyFreeGrant none amount <;> rfl
  · rw [if_neg h, if_neg (h ∘ hplain.mp)]
    rfl

end Account

/-! ## Captures -/

/-- The plain accounts. -/
def plainAccounts (accounts : Accounts) : Accounts := fun id ↦ (accounts id).map Account.plain

theorem plainAccounts_plain (accounts : Accounts) :
    plainAccounts (plainAccounts accounts) = plainAccounts accounts := by
  funext id
  rw [plainAccounts, plainAccounts, Option.map_map]
  exact Option.map_congr fun a _ ↦ a.plain_plain

theorem plainAccounts_update (accounts : Accounts) (id : String) (a : Account) :
    plainAccounts (Function.update accounts id (some a)) =
      Function.update (plainAccounts accounts) id (some a.plain) :=
  Function.comp_update (Option.map Account.plain) accounts id (some a)

/-- The state of captures with the plain accounts. -/
def CaptureState.plain (s : CaptureState) : CaptureState :=
  { s with accounts := plainAccounts s.accounts }

section Capture

variable {now : Timestamp} {freeMonthlyCredits : Int}

theorem map_plain_chargeEvent (now : Timestamp) (freeMonthlyCredits : Int) (accounts : Accounts)
    (result : EventRow × Bool) :
    (chargeEvent now freeMonthlyCredits accounts result).map plainAccounts =
      chargeEvent now freeMonthlyCredits (plainAccounts accounts) result := by
  rw [chargeEvent, chargeEvent]
  split
  · rfl
  · cases h : accounts result.1.content.orgId with
    | none =>
      have hplain : plainAccounts accounts result.1.content.orgId = none := by
        rw [plainAccounts, h, Option.map_none]
      rw [hplain]
      rfl
    | some a =>
      have hplain : plainAccounts accounts result.1.content.orgId = some a.plain := by
        rw [plainAccounts, h, Option.map_some]
      rw [hplain]
      simp only [← Account.map_plain_maybeGrantLazyFreeCredits]
      cases a.maybeGrantLazyFreeCredits now freeMonthlyCredits with
      | error e => rfl
      | ok granted =>
        simp only [Except.map, ok_bind, ← Account.map_plain_tryDebitCredit]
        cases granted.tryDebitCredit now .captureDebit (some (.event result.1.id)) with
        | error e => rfl
        | ok debited => exact congrArg Except.ok (plainAccounts_update _ _ _)

/-- Captures do not see more of a status than whether it is an active one. -/
theorem map_plain_capture (hash : EventContent → String) (batchKey : Option String)
    (events : List EventIn) (s : CaptureState) :
    (capture hash now freeMonthlyCredits batchKey events s).map (fun r ↦ (r.1, r.2.plain)) =
      capture hash now freeMonthlyCredits batchKey events s.plain := by
  rw [capture, capture]
  split
  · rfl
  · have hcharges := foldlM_map (g := plainAccounts)
      (map_plain_chargeEvent now freeMonthlyCredits) s.accounts
      (s.events.writeEvents hash batchKey events)
    have hplain : s.plain.accounts = plainAccounts s.accounts := rfl
    have hevents : s.plain.events = s.events := rfl
    rw [hplain, hevents]
    simp only [← hcharges]
    cases (s.events.writeEvents hash batchKey events).foldlM
      (chargeEvent now freeMonthlyCredits) s.accounts <;> rfl

end Capture

/-! ## Deliveries -/

namespace DodoEnv

variable {env : DodoEnv} {now : Timestamp} {name webhookId : String}
  {subscription : DodoSubscription} {accounts : Accounts} {a b : Account} {id : String}

theorem namedOrg_plain (orgId : Option String) :
    env.namedOrg (plainAccounts accounts) orgId = env.namedOrg accounts orgId := by
  simp only [namedOrg, plainAccounts, Option.isSome_map]

theorem organizationOf_plain : env.organizationOf (plainAccounts accounts) subscription =
    env.organizationOf accounts subscription := by
  have hsame (id subscriptionId : String) :
      ((plainAccounts accounts id).any fun a ↦ a.org.dodoSubscriptionId = some subscriptionId) =
        (accounts id).any fun a ↦ a.org.dodoSubscriptionId = some subscriptionId := by
    rw [plainAccounts]
    cases accounts id <;> rfl
  simp only [organizationOf, namedOrg_plain, hsame]

theorem unclaimed_plain : env.Unclaimed (plainAccounts accounts) id subscription ↔
    env.Unclaimed accounts id subscription := by
  refine forall₃_congr fun other _ _ ↦ ?_
  rw [plainAccounts]
  cases accounts other with
  | none => simp
  | some a => simp [Account.plain, Organization.plain]

theorem plain_assignSubscription :
    (assignSubscription name subscription a.plain).plain =
      (assignSubscription name subscription a).plain := by
  rw [assignSubscription, assignSubscription, Account.plain, Account.plain]
  congr 1
  cases (orKey subscription.status).or (dodoStatusByEvent name) with
  | some status => rfl
  | none =>
    simp only [Option.none_or]
    exact Organization.plain_plain { a.org with
      dodoSubscriptionId := (orKey (some subscription.subscriptionId)).or a.org.dodoSubscriptionId }

theorem map_plain_renew {plan : String} {reference : CreditReference} :
    (renew now plan reference a).map Account.plain = renew now plan reference a.plain := by
  rw [renew, renew]
  split
  · exact Account.map_plain_resetMonthlyCredits
  · rfl

theorem map_plain_assignPlan {plan : String} (x : Except CreditError Account) :
    (x.map (assignPlan plan)).map Account.plain = (x.map Account.plain).map (assignPlan plan) := by
  cases x <;> rfl

/-- A subscription event does not see more of a status than whether it is an active one. -/
theorem map_plain_applySubscription :
    (env.applySubscription now name webhookId subscription a.plain).map Account.plain =
      (env.applySubscription now name webhookId subscription a).map Account.plain := by
  have hplan : env.planKey subscription a.plain.org = env.planKey subscription a.org := rfl
  rw [applySubscription, applySubscription, hplan]
  split
  · rw [map_plain_assignPlan, map_plain_assignPlan, map_plain_renew, map_plain_renew,
      plain_assignSubscription]
  · split
    · cases env.productToPlan subscription.productId with
      | none => exact congrArg Except.ok plain_assignSubscription
      | some plan =>
        exact congrArg (fun b ↦ Except.ok (assignPlan plan b)) plain_assignSubscription
    · exact congrArg Except.ok plain_assignSubscription

/-- A change that does not see more of a status than that. -/
theorem plainAccounts_change {f : Account → Except CreditError Account}
    (hf : ∀ a : Account, (f a.plain).map Account.plain = (f a).map Account.plain) :
    plainAccounts (change (plainAccounts accounts) id f) =
      plainAccounts (change accounts id f) := by
  rw [change, change, plainAccounts]
  cases h : accounts id with
  | none =>
    simp only [Option.map_none]
    exact plainAccounts_plain accounts
  | some a =>
    simp only [Option.map_some]
    have hmap := hf a
    revert hmap
    cases f a.plain with
    | error e =>
      cases f a with
      | error e' => exact fun _ ↦ plainAccounts_plain accounts
      | ok b => rintro ⟨⟩
    | ok b =>
      cases f a with
      | error e' => rintro ⟨⟩
      | ok b' =>
        intro hmap
        have hb : b.plain = b'.plain := Except.ok.inj hmap
        simp only [plainAccounts_update, hb, plainAccounts_plain]

theorem plainAccounts_deliver (event : DodoEvent) :
    plainAccounts (env.deliver now (plainAccounts accounts) event) =
      plainAccounts (env.deliver now accounts event) := by
  cases event with
  | subscription name webhookId subscription =>
    cases subscription with
    | none => exact plainAccounts_plain accounts
    | some subscription =>
      simp only [deliver, organizationOf_plain]
      cases env.organizationOf accounts subscription with
      | none => exact plainAccounts_plain accounts
      | some id =>
        simp only [unclaimed_plain]
        split
        · exact plainAccounts_change fun a ↦ map_plain_applySubscription
        · exact plainAccounts_plain accounts
  | payment webhookId payment =>
    cases payment with
    | none => exact plainAccounts_plain accounts
    | some payment =>
      simp only [deliver, namedOrg_plain]
      cases env.namedOrg accounts payment.orgId with
      | none => exact plainAccounts_plain accounts
      | some id =>
        simp only
        split
        · exact plainAccounts_plain accounts
        · refine plainAccounts_change fun a ↦ ?_
          rw [Account.map_plain_grantCredits, Account.map_plain_grantCredits, Account.plain_plain]
  | other => exact plainAccounts_plain accounts

end DodoEnv

/-! ## Redeliveries -/

namespace DodoEnv

variable {env : DodoEnv} {now : Timestamp} {name webhookId plan : String} {orgId : Option String}
  {subscription : DodoSubscription} {accounts : Accounts} {a b : Account} {id : String}
  {reference : CreditReference}

/-- The organization is as a subscription event leaves it. -/
structure SubscriptionIdle (env : DodoEnv) (name : String) (subscription : DodoSubscription)
    (a : Account) : Prop where
  subscriptionId : ∀ subscriptionId ∈ orKey (some subscription.subscriptionId),
    a.org.dodoSubscriptionId = some subscriptionId
  status : ∀ status ∈ (orKey subscription.status).or (dodoStatusByEvent name),
    (status = "active" ∨ status = "trialing") ↔ a.org.Subscribed
  /-- A renewal finds its plan, and its credits unspent. -/
  renewal : name = "subscription.active" ∨ name = "subscription.renewed" →
    a.org.subscriptionPlan = some (env.planKey subscription a.org) ∧
      (0 < (cloudPlan (env.planKey subscription a.org)).getD 0 →
        a.org.creditBalance = (cloudPlan (env.planKey subscription a.org)).getD 0)
  plan : name = "subscription.plan_changed" →
    ∀ plan ∈ env.productToPlan subscription.productId, a.org.subscriptionPlan = some plan

/-- The organizations are as a delivery leaves them: it is no top-up, and a subscription event finds
what it assigns. -/
def RedeliveryIdle (env : DodoEnv) (accounts : Accounts) : DodoEvent → Prop
  | .subscription name _ (some subscription) =>
    ∀ id ∈ env.organizationOf accounts subscription, env.Unclaimed accounts id subscription →
      ∀ a ∈ accounts id, env.SubscriptionIdle name subscription a
  | .payment _ (some payment) =>
    ∀ id ∈ env.namedOrg accounts payment.orgId, env.cartCredits payment.cart ≤ 0
  | .subscription _ _ none | .payment _ none | .other => True

theorem plain_eq_iff : b.plain = a.plain ↔ (b.org.creditBalance = a.org.creditBalance ∧
    b.org.freeCreditsGrantedAt = a.org.freeCreditsGrantedAt ∧
    (b.org.Subscribed ↔ a.org.Subscribed) ∧
    b.org.subscriptionPlan = a.org.subscriptionPlan ∧
    b.org.dodoSubscriptionId = a.org.dodoSubscriptionId) ∧ b.transactions = a.transactions := by
  have hstatus : ((if b.org.Subscribed then some "active" else none) =
      if a.org.Subscribed then some "active" else none) ↔
        (b.org.Subscribed ↔ a.org.Subscribed) := by
    by_cases hb : b.org.Subscribed <;> by_cases ha : a.org.Subscribed <;> simp [ha, hb]
  rw [Account.plain, Account.plain, Account.mk.injEq, Organization.plain, Organization.plain,
    Organization.mk.injEq, hstatus]

/-- What a renewal does. -/
theorem renew_eq : renew now plan reference a = .ok
    (if 0 < (cloudPlan plan).getD 0 ∧ a.org.creditBalance ≠ (cloudPlan plan).getD 0 then
      a.post now .subscriptionGrant (some reference) ((cloudPlan plan).getD 0) else a) := by
  rw [renew, Account.resetMonthlyCredits]
  by_cases hpos : 0 < (cloudPlan plan).getD 0
  · rw [if_pos hpos, if_neg (by omega)]
    by_cases heq : a.org.creditBalance = (cloudPlan plan).getD 0
    · rw [if_pos (by omega), if_neg (by tauto)]
    · rw [if_neg (by omega), if_pos ⟨hpos, heq⟩]
  · rw [if_neg hpos, if_neg (by tauto)]

/-- When the columns that every subscription event assigns are as they were. -/
theorem assigned_iff :
    ((assignSubscription name subscription a).org.Subscribed ↔ a.org.Subscribed) ∧
      (assignSubscription name subscription a).org.dodoSubscriptionId = a.org.dodoSubscriptionId ↔
    (∀ status ∈ (orKey subscription.status).or (dodoStatusByEvent name),
      (status = "active" ∨ status = "trialing") ↔ a.org.Subscribed) ∧
    ∀ subscriptionId ∈ orKey (some subscription.subscriptionId),
      a.org.dodoSubscriptionId = some subscriptionId := by
  refine and_congr ?_ ?_
  · rw [assignSubscription, Organization.Subscribed]
    cases (orKey subscription.status).or (dodoStatusByEvent name) with
    | none => simp [Organization.Subscribed]
    | some status => simp
  · rw [assignSubscription]
    cases orKey (some subscription.subscriptionId) with
    | none => simp
    | some subscriptionId => simp [eq_comm]

theorem plain_assigned_iff : (assignSubscription name subscription a).plain = a.plain ↔
    (∀ status ∈ (orKey subscription.status).or (dodoStatusByEvent name),
      (status = "active" ∨ status = "trialing") ↔ a.org.Subscribed) ∧
    ∀ subscriptionId ∈ orKey (some subscription.subscriptionId),
      a.org.dodoSubscriptionId = some subscriptionId := by
  rw [plain_eq_iff, ← assigned_iff]
  exact ⟨fun h ↦ ⟨h.1.2.2.1, h.1.2.2.2.2⟩, fun h ↦ ⟨⟨rfl, rfl, h.1, rfl, h.2⟩, rfl⟩⟩

theorem plain_assignPlan_iff (hrest : b.org.subscriptionPlan = a.org.subscriptionPlan) :
    (assignPlan plan b).plain = a.plain ↔
      b.plain = a.plain ∧ a.org.subscriptionPlan = some plan := by
  rw [plain_eq_iff, plain_eq_iff]
  constructor
  · rintro ⟨⟨hbalance, hfree, hsubscribed, hplan, hdodo⟩, hrows⟩
    exact ⟨⟨⟨hbalance, hfree, hsubscribed, hrest, hdodo⟩, hrows⟩, hplan.symm⟩
  · rintro ⟨⟨⟨hbalance, hfree, hsubscribed, -, hdodo⟩, hrows⟩, hplan⟩
    exact ⟨⟨hbalance, hfree, hsubscribed, hplan.symm, hdodo⟩, hrows⟩

/-- A subscription event changes nothing exactly when it finds what it assigns. -/
theorem applySubscription_idle_iff :
    (∀ b, env.applySubscription now name webhookId subscription a = .ok b → b.plain = a.plain) ↔
      env.SubscriptionIdle name subscription a := by
  set credits := (cloudPlan (env.planKey subscription a.org)).getD 0 with hcredits
  have hok {b : Account} : (∀ b', (Except.ok b : Except CreditError Account) = .ok b' →
      b'.plain = a.plain) ↔ b.plain = a.plain :=
    ⟨fun h ↦ h b rfl, fun h b' hb ↦ Except.ok.inj hb ▸ h⟩
  have hplanned (plan : String) :
      (assignPlan plan (assignSubscription name subscription a)).plain = a.plain ↔
        (assignSubscription name subscription a).plain = a.plain ∧
          a.org.subscriptionPlan = some plan := plain_assignPlan_iff rfl
  rw [applySubscription]
  by_cases hgrants : name = "subscription.active" ∨ name = "subscription.renewed"
  · have hchanged : name ≠ "subscription.plan_changed" := by
      rintro rfl
      exact absurd hgrants (by decide)
    have hbalance : (assignSubscription name subscription a).org.creditBalance =
      a.org.creditBalance := rfl
    rw [if_pos hgrants, renew_eq, ← hcredits, hbalance, Except.map, hok]
    by_cases hspent : 0 < credits ∧ a.org.creditBalance ≠ credits
    · refine iff_of_false (fun h ↦ ?_) fun h ↦ hspent.2 ((h.renewal hgrants).2 hspent.1)
      have hbalance := (plain_eq_iff.mp h).1.1
      rw [if_pos hspent] at hbalance
      exact hspent.2 hbalance.symm
    · rw [if_neg hspent, hplanned, plain_assigned_iff]
      constructor
      · rintro ⟨⟨hstatus, hid⟩, hplan⟩
        refine ⟨hid, hstatus, fun _ ↦ ⟨hplan, fun hpos ↦ ?_⟩, fun h ↦ absurd h hchanged⟩
        exact not_not.mp fun hne ↦ hspent ⟨hpos, hne⟩
      · intro h
        exact ⟨⟨h.status, h.subscriptionId⟩, (h.renewal hgrants).1⟩
  · rw [if_neg hgrants]
    by_cases hchanged : name = "subscription.plan_changed"
    · rw [if_pos hchanged, hok]
      cases hplan : env.productToPlan subscription.productId with
      | none =>
        rw [Option.map_none, Option.getD_none, plain_assigned_iff]
        refine ⟨fun h ↦ ⟨h.2, h.1, fun h' ↦ absurd h' hgrants, ?_⟩, fun h ↦
          ⟨h.status, h.subscriptionId⟩⟩
        rw [hplan]
        rintro _ _ ⟨⟩
      | some plan =>
        rw [Option.map_some, Option.getD_some, hplanned, plain_assigned_iff]
        refine ⟨fun h ↦ ⟨h.1.2, h.1.1, fun h' ↦ absurd h' hgrants, ?_⟩, fun h ↦
          ⟨⟨h.status, h.subscriptionId⟩, h.plan hchanged plan hplan⟩⟩
        rw [hplan]
        rintro _ _ ⟨⟩
        exact h.2
    · rw [if_neg hchanged, hok, plain_assigned_iff]
      exact ⟨fun h ↦ ⟨h.2, h.1, fun h' ↦ absurd h' hgrants, fun h' ↦ absurd h' hchanged⟩,
        fun h ↦ ⟨h.status, h.subscriptionId⟩⟩

/-- A change leaves an organization as it is, or there is none. -/
theorem plainAccounts_change_iff {f : Account → Except CreditError Account} :
    plainAccounts (change accounts id f) = plainAccounts accounts ↔
      ∀ a ∈ accounts id, ∀ b, f a = .ok b → b.plain = a.plain := by
  rw [change]
  cases h : accounts id with
  | none => simp
  | some a =>
    simp only [Option.map_some]
    cases hf : f a with
    | error e => simp [hf]
    | ok b =>
      rw [plainAccounts_update]
      constructor
      · rintro heq a' ⟨⟩ b' hb'
        obtain rfl := Except.ok.inj (hf.symm.trans hb')
        have hid := congrFun heq id
        rw [Function.update_self, plainAccounts, h, Option.map_some] at hid
        exact Option.some.inj hid
      · intro hsame
        rw [hsame a rfl b hf]
        refine Function.update_eq_self_iff.mpr ?_
        rw [plainAccounts, h, Option.map_some]

theorem exists_account_of_namedOrg (h : id ∈ env.namedOrg accounts orgId) :
    ∃ a, accounts id = some a := by
  obtain ⟨-, hsome⟩ := Option.filter_eq_some_iff.mp h
  exact Option.isSome_iff_exists.mp hsome

/-- **A redelivery changes nothing** exactly when the organizations are as it leaves them. -/
theorem deliver_idle_iff (event : DodoEvent) :
    plainAccounts (env.deliver now accounts event) = plainAccounts accounts ↔
      env.RedeliveryIdle accounts event := by
  cases event with
  | subscription name webhookId subscription =>
    cases subscription with
    | none => exact iff_of_true rfl trivial
    | some subscription =>
      rw [deliver, RedeliveryIdle]
      cases env.organizationOf accounts subscription with
      | none => simp
      | some id =>
        by_cases hclaim : env.Unclaimed accounts id subscription
        · simp only [if_pos hclaim, plainAccounts_change_iff, applySubscription_idle_iff]
          simp [hclaim]
        · simp [hclaim]
  | payment webhookId payment =>
    cases payment with
    | none => exact iff_of_true rfl trivial
    | some payment =>
      rw [deliver, RedeliveryIdle]
      cases hid : env.namedOrg accounts payment.orgId with
      | none => simp
      | some id =>
        obtain ⟨a, ha⟩ := exists_account_of_namedOrg hid
        by_cases hcredits : env.cartCredits payment.cart ≤ 0
        · simp [hcredits]
        · simp only [if_neg hcredits, plainAccounts_change_iff]
          refine iff_of_false (fun h ↦ ?_) (by simpa using hcredits)
          have hbalance := (plain_eq_iff.mp (h a ha _ (if_neg hcredits))).1.1
          exact hcredits (by simpa [Account.post] using hbalance.le)
  | other => exact iff_of_true rfl trivial

end DodoEnv

/-! ## Runs -/

section Runs

variable {env : DodoEnv} {hash : EventContent → String} {freeMonthlyCredits : Int}
  {s t : CaptureState} {steps : List BillingStep}

/-- Every redelivery of a run finds the organizations as it leaves them. -/
def RedeliveriesIdle (env : DodoEnv) (hash : EventContent → String) (freeMonthlyCredits : Int) :
    CaptureState → List BillingStep → Prop
  | _, [] => True
  | s, step :: steps =>
    (match step with
      | .redeliver _ event => env.RedeliveryIdle s.accounts event
      | _ => True) ∧
    RedeliveriesIdle env hash freeMonthlyCredits (billingStep env hash freeMonthlyCredits s step)
      steps

/-- What a delivery is about: the balance, the plan and the transactions. -/
def Account.billed (a : Account) : Int × Option String × List CreditTransaction :=
  (a.org.creditBalance, a.org.subscriptionPlan, a.transactions)

theorem map_billed_plain (s : CaptureState) (id : String) :
    (s.plain.accounts id).map Account.billed = (s.accounts id).map Account.billed := by
  change ((s.accounts id).map Account.plain).map Account.billed = _
  rw [Option.map_map]
  rfl

theorem CaptureState.plain_plain (s : CaptureState) : s.plain.plain = s.plain :=
  congrArg (fun accounts ↦ { s with accounts := accounts }) (plainAccounts_plain s.accounts)

/-- No step sees more of a status than whether it is an active one. -/
theorem plain_billingStep (step : BillingStep) :
    (billingStep env hash freeMonthlyCredits s.plain step).plain =
      (billingStep env hash freeMonthlyCredits s step).plain := by
  cases step with
  | deliver now event | redeliver now event =>
    exact congrArg (fun accounts ↦ { s with accounts := accounts })
      (DodoEnv.plainAccounts_deliver event)
  | capture now batchKey events =>
    rw [billingStep, billingStep, ← map_plain_capture]
    cases capture hash now freeMonthlyCredits batchKey events s with
    | error e => exact s.plain_plain
    | ok r => exact r.2.plain_plain

/-- Steps keep states alike that differ in no more than that. -/
theorem billingStep_congr (h : s.plain = t.plain) (step : BillingStep) :
    (billingStep env hash freeMonthlyCredits s step).plain =
      (billingStep env hash freeMonthlyCredits t step).plain := by
  rw [← plain_billingStep, h, plain_billingStep]

/-- A run, and the run without its redeliveries. -/
theorem billingRun_plain (hidle : RedeliveriesIdle env hash freeMonthlyCredits s steps)
    (h : s.plain = t.plain) : (billingRun env hash freeMonthlyCredits s steps).plain =
      (billingRun env hash freeMonthlyCredits t (steps.filter fun x ↦ ¬ x.Redelivers)).plain := by
  induction steps generalizing s t with
  | nil => exact h
  | cons step steps ih =>
    obtain ⟨hstep, hidle⟩ := hidle
    cases step with
    | deliver now event =>
      rw [List.filter_cons_of_pos (by simp [BillingStep.Redelivers])]
      exact ih hidle (billingStep_congr h _)
    | capture now batchKey events =>
      rw [List.filter_cons_of_pos (by simp [BillingStep.Redelivers])]
      exact ih hidle (billingStep_congr h _)
    | redeliver now event =>
      rw [List.filter_cons_of_neg (by simp [BillingStep.Redelivers])]
      refine ih hidle (Eq.trans ?_ h)
      exact congrArg (fun accounts ↦ { s with accounts := accounts })
        ((DodoEnv.deliver_idle_iff event).mpr hstep)

/-- **Redeliveries change nothing** in a run whose redeliveries find the organizations as they leave
them: balance, plan and transactions are as without them. -/
theorem redelivery_noop (hidle : RedeliveriesIdle env hash freeMonthlyCredits s steps)
    (id : String) :
    ((billingRun env hash freeMonthlyCredits s steps).accounts id).map Account.billed =
      ((billingRun env hash freeMonthlyCredits s
        (steps.filter fun x ↦ ¬ x.Redelivers)).accounts id).map Account.billed := by
  have hplain := congrArg (fun s ↦ (CaptureState.accounts s id).map Account.billed)
    (billingRun_plain hidle rfl)
  exact (map_billed_plain _ id).symm.trans (hplain.trans (map_billed_plain _ id))

end Runs

/-! ## Samples -/

namespace Sample

/-- One organization, and the products of a server. -/
def dodo : DodoEnv where
  productStarter := "starter"
  productGrowth := "growth"
  productScale := "scale"
  payg1000 := "payg1000"
  payg5000 := "payg5000"
  payg20000 := "payg20000"
  orgIds := ["org"]
  parseOrgId id := some id

/-- An organization renews its plan. -/
def renewal : DodoEvent :=
  .subscription "subscription.renewed" "webhook" (some ⟨"subscription", some "org", none, "starter"⟩)

/-- An organization buys a thousand credits. -/
def topUp : DodoEvent := .payment "webhook" (some ⟨some "org", ["payg1000"]⟩)

/-- What becomes of the balance of the organization. -/
def balanceAfter (steps : List BillingStep) : Option Int :=
  ((billingRun dodo (fun _ ↦ "hash") 1000 intake steps).accounts "org").map
    fun a ↦ a.org.creditBalance

end Sample

/-- A renewal is delivered again at once. -/
theorem redelivery_noop_sample :
    ((billingRun Sample.dodo (fun _ ↦ "hash") 1000 Sample.intake
      [.deliver 0 Sample.renewal, .redeliver 1 Sample.renewal]).accounts "org").map Account.billed =
    ((billingRun Sample.dodo (fun _ ↦ "hash") 1000 Sample.intake
      ([.deliver 0 Sample.renewal, .redeliver 1 Sample.renewal].filter
        fun x ↦ ¬ x.Redelivers)).accounts "org").map Account.billed := by
  have hidle : RedeliveriesIdle Sample.dodo (fun _ ↦ "hash") 1000 Sample.intake
      [.deliver 0 Sample.renewal, .redeliver 1 Sample.renewal] := by
    refine ⟨trivial, ?_, trivial⟩
    rintro id ⟨⟩ - a ⟨⟩
    exact ⟨by decide, by decide, by decide, by decide⟩
  exact redelivery_noop hidle "org"

/-- A top-up that is delivered again is paid out again, and a renewal that is delivered again gives
spent credits back. -/
theorem redelivery_pays_again :
    Sample.balanceAfter [.deliver 0 Sample.topUp] = some 1010 ∧
      Sample.balanceAfter [.deliver 0 Sample.topUp, .redeliver 1 Sample.topUp] = some 2010 ∧
    Sample.balanceAfter [.deliver 0 Sample.renewal, .capture 1 none [Sample.note "a"]] =
        some 19999 ∧
      Sample.balanceAfter [.deliver 0 Sample.renewal, .capture 1 none [Sample.note "a"],
        .redeliver 2 Sample.renewal] = some 20000 :=
  ⟨rfl, rfl, rfl, rfl⟩

end Haki
