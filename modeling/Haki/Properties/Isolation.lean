import Haki.Sample
import Haki.Tenancy.Routes

/-!
# Tenants do not interfere

`answerAll` runs any interleaving of the calls of any number of projects, and of
runs of the whole queue, on one service and collects the answers.
`answerAll_only`: the answers some tenants get, and what they see of the service
afterwards, are those of a run of their own calls and the runs of the queue
alone.  Nothing another tenant stores, consolidates, merges or erases can be
observed: not by an error, a receipt or a counter, and not by an idempotency key
that both have used.
-/

namespace Haki

open Data Control

/-- The answers to a list of steps, and the service after the last one. -/
def answerAll (senv : ServiceEnv) (s : Service) (steps : List ServiceStep) :
    List (ServiceStep × HttpResponse) × Service :=
  answers (fun s step ↦ step.answer senv s) s steps

/-- Nothing is stored at the start. -/
theorem Service.Owned.start {w : Ownership} {accounts : String → Option Account}
    (h : ∀ org, (accounts org).isSome → w.Shared org) : (Service.start accounts).Owned w where
  unique := by rintro _ ⟨⟩
  memory := .empty w.owner
  eventRows := by rintro _ ⟨⟩
  accounts := h
  jobs := by rintro _ ⟨⟩

/-- **Noninterference.**  In any interleaving of calls, each one of the project it is made for, and
runs of the queue, the answers to the calls of some tenants, and what they see of the service at the
end, are those of a run of their calls and the runs of the queue alone, on their accounts. -/
theorem answerAll_only (w : Ownership) (senv : ServiceEnv) (t : Tenants) (ht : t.Closed w)
    (accounts : String → Option Account) (hshared : ∀ org, (accounts org).isSome → w.Shared org)
    (steps : List ServiceStep) (hof : ∀ step ∈ steps, step.Of w) :
    (answerAll senv (.start accounts) steps).1.filter (fun r ↦ r.1.told t) =
        (answerAll senv (.start (t.accounts accounts)) (steps.filter (ServiceStep.seen t))).1.filter
          (fun r ↦ r.1.told t) ∧
      (answerAll senv (.start accounts) steps).2.only t =
        (answerAll senv (.start (t.accounts accounts)) (steps.filter (ServiceStep.seen t))).2 := by
  have hstart : (Service.start accounts).only t = .start (t.accounts accounts) := rfl
  obtain ⟨hanswers, hview⟩ :=
    (ServiceStep.unwinds senv ht).answers (Service.Owned.start hshared) hof
  rw [hstart] at hanswers hview
  exact ⟨hanswers.symm, hview.symm⟩

namespace Sample

/-- A message of a subject, under an idempotency key that every project uses. -/
def message (orgId projectId : String) : SdkEvent where
  orgId := orgId
  projectId := projectId
  subjectType := "user"
  subjectId := "subject"
  kind := "message"
  occurredAt := 0
  payload := .empty
  threadId := none
  runId := none
  idempotencyKey := some "retry"
  subjectAlias := none
  columns := ⟨none, .trusted, none, none⟩

/-- The environment of a service with nothing for free. -/
def serviceEnv : ServiceEnv := ⟨.sample, fun _ ↦ "hash", 0⟩

/-- The organization of a project. -/
def orgOf (projectId : String) : String := if projectId = "project" then "org" else "others"

/-- Two tenants with a subject of the same name and one idempotency key, their calls interleaved.
The second message of the first tenant is a retry. -/
def twoTenants : List ServiceStep :=
  [.call "other" (.capture none 1 [(1, message "others" "other")]),
    .call "project" (.capture none 2 [(2, message "org" "project")]),
    .poll 3 (always [create "city" "Lyon"]),
    .call "other" (.mergeSubjects "other" "subject" "renamed"),
    .call "project" (.capture none 4 [(4, message "org" "project")]),
    .call "other" (.forget 5 "other" .delete (.subject "renamed")),
    .call "project" (.context .sample
      { projectId := "project"
        subject := .id "subject"
        query := request.query
        purpose := none
        budgetTokens := 3000
        asOf := none
        excludeIds := []
        now := 6
        traceId := 0 }),
    .call "project" (.projects ["project"])]

/-- Whose ids and organizations those of `twoTenants` are. -/
def twoOwners : Ownership where
  owner id := if id = 1 then "other" else "project"
  orgOf := orgOf
  Shared _ := True

/-- The first tenant. -/
def firstTenant : Tenants := ⟨fun p ↦ p = "project", fun org ↦ org = "org"⟩

/-- Two organizations with one credit each. -/
def oneCredit (org : String) : Option Account :=
  if org = "org" ∨ org = "others" then some ⟨⟨1, none, some "active", some "starter", none⟩, []⟩
  else none

theorem firstTenant_closed : firstTenant.Closed twoOwners := by
  intro p _
  show decide (p = "project") = decide (orgOf p = "org")
  rw [orgOf]
  by_cases h : p = "project"
  · rw [if_pos h, decide_eq_true h, decide_eq_true rfl]
  · rw [if_neg h, decide_eq_false h]
    rfl

theorem twoTenants_of : ∀ step ∈ twoTenants, step.Of twoOwners := by
  have hdrawn (id : EventId) (orgId projectId : String)
      (h : twoOwners.owner id = projectId ∧ orgId = twoOwners.orgOf projectId) :
      DrawnFor twoOwners projectId [(id, message orgId projectId)] :=
    List.forall_mem_singleton.mpr ⟨h.1, rfl, h.2⟩
  simp only [twoTenants, List.forall_mem_cons]
  exact ⟨hdrawn 1 _ _ (by decide), hdrawn 2 _ _ (by decide), trivial, rfl,
    hdrawn 4 _ _ (by decide), rfl, rfl, ⟨trivial, List.forall_mem_singleton.mpr rfl⟩,
    fun _ h ↦ absurd h List.not_mem_nil⟩

end Sample

theorem answerAll_only_twoTenants :
    (answerAll Sample.serviceEnv (.start Sample.oneCredit) Sample.twoTenants).1.filter
          (fun r ↦ r.1.told Sample.firstTenant) =
        (answerAll Sample.serviceEnv (.start (Sample.firstTenant.accounts Sample.oneCredit))
          (Sample.twoTenants.filter (ServiceStep.seen Sample.firstTenant))).1.filter
            (fun r ↦ r.1.told Sample.firstTenant) ∧
      (answerAll Sample.serviceEnv (.start Sample.oneCredit) Sample.twoTenants).2.only
          Sample.firstTenant =
        (answerAll Sample.serviceEnv (.start (Sample.firstTenant.accounts Sample.oneCredit))
          (Sample.twoTenants.filter (ServiceStep.seen Sample.firstTenant))).2 :=
  answerAll_only Sample.twoOwners Sample.serviceEnv Sample.firstTenant Sample.firstTenant_closed
    Sample.oneCredit (fun _ _ ↦ trivial) Sample.twoTenants Sample.twoTenants_of

end Haki
