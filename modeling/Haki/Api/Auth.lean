import Haki.Api.Keys
import Haki.Context.Chunking
import Haki.Context.Cost
import Haki.Control.Fold
import Haki.Data.Query

/-!
# Authentication

`ApiKeyAuthMiddleware` (`app.auth`) and the second rule of the policy engine
(`check_project_scope`): which requests need a key, how the key is found, and
which project and organization ids a request may carry.
-/

namespace Haki

open Data Control

/-- `ApiError`. -/
structure ApiError where
  type : String
  message : String
  field : Option String
  statusCode : Nat
deriving DecidableEq, Repr

/-- A request, as it is handed to the middleware. -/
structure HttpScope where
  method : String
  path : String
  queryString : String
  headers : Headers
  /-- What `json.loads` reads in the body; `none` for an empty or malformed one. -/
  body : Option PyJson

/-- The settings authentication depends on. -/
structure AuthSettings where
  adminKey : String
  authRequired : Bool

/-- What a request is refused with. -/
inductive AuthError where
  | denied (error : ApiError)
  /-- An organization id that is a list or an object cannot be put in a set. -/
  | unhashable
deriving DecidableEq, Repr

/-! ## Paths -/

/-- `startswith`. -/
def startsWith (path start : String) : Bool := start.toList.isPrefixOf path.toList

/-- `rstrip("/")`. -/
def rstripSlash (path : String) : String := String.ofList (path.toList.rdropWhile (· = '/'))

namespace HttpScope

variable (settings : AuthSettings) (scope : HttpScope)

/-- `unscoped_consolidate`: the admin key guards it, not a customer's key. -/
def unscopedConsolidate : Bool :=
  settings.adminKey ≠ "" ∧ rstripSlash scope.path = "/v1/consolidate"

/-- `key_org_paths`. -/
def keyOrgPaths : Bool :=
  rstripSlash scope.path = "/v1/orgs/settings" ∨
    rstripSlash scope.path = "/v1/orgs/members" ∧ scope.method = "GET"

/-- `dual_trust_paths`: the route itself decides on a request without a key. -/
def dualTrustPaths : Bool :=
  scope.keyOrgPaths || rstripSlash scope.path = "/v1/billing/summary"

/-- `protected`. -/
def isProtected : Bool :=
  startsWith scope.path "/gateway/v1/" ||
    (startsWith scope.path "/v1/" &&
      !startsWith scope.path "/v1/keys" &&
      !(startsWith scope.path "/v1/orgs" && !scope.keyOrgPaths) &&
      !(startsWith scope.path "/v1/billing" && rstripSlash scope.path ≠ "/v1/billing/summary") &&
      !startsWith scope.path "/v1/webhooks" &&
      !startsWith scope.path "/v1/cli/device" &&
      !scope.unscopedConsolidate settings)

end HttpScope

/-! ## Scope binding -/

/-- The entries of an object. -/
def Data.Json.entries? : PyJson → Option (List (String × PyJson))
  | .obj entries => some entries
  | _ => none

/-- `_body_scope_ids`: the project ids and the organization ids in a body. -/
def bodyScopeIds : PyJson → List PyJson × List PyJson
  | .obj payload =>
    let events := match entryGet payload "events" with
      | .arr events => events.filterMap Json.entries?
      | _ => []
    (entryGet payload "project_id" :: events.map fun event ↦ entryGet event "project_id",
      entryGet payload "org_id" :: events.map fun event ↦ entryGet event "org_id")
  | _ => ([], [])

section

variable (unquote : String → String)

/-- `candidates` and `org_candidates`: the ids in the query, then those in the body. -/
def HttpScope.candidates (scope : HttpScope) : List PyJson × List PyJson :=
  let body := if scope.method ∈ ["POST", "PUT", "PATCH"] then scope.body.elim ([], []) bodyScopeIds
    else ([], [])
  ((queryValues unquote scope.queryString "project_id").map .str ++ body.1,
    (queryValues unquote scope.queryString "org_id").map .str ++ body.2)

end

/-- `check_project_scope`. -/
def checkProjectScope (keyProjectId : String) (candidates : List PyJson) : Except AuthError Unit :=
  if ∃ candidate ∈ candidates, isTruthy candidate ∧ candidate ≠ .str keyProjectId then
    .error (.denied ⟨"forbidden_scope",
      "this API key is not authorized for the requested project", some "project_id", 403⟩)
  else .ok ()

/-- Whether a decoded value can be put in a set. -/
def isHashable : PyJson → Bool
  | .arr _ | .obj _ => false
  | _ => true

/-- The organization ids of a request are absent, or that of the key. -/
def checkOrgScope (keyOrgId : String) (candidates : List PyJson) : Except AuthError Unit :=
  let claimed := candidates.filter (· ≠ .null)
  if ∃ org ∈ claimed, ¬ isHashable org then .error .unhashable
  else if ∃ org ∈ claimed, org ≠ .str keyOrgId then
    .error (.denied ⟨"forbidden",
      "org_id does not match the authenticated API key's organization", some "org_id", 403⟩)
  else .ok ()

section

variable (hash unquote : String → String) (keys : ApiKeys) (settings : AuthSettings)

/-- The middleware: the key that is put in the state of the request, if it is let through. -/
def authenticate (scope : HttpScope) : Except AuthError (Option ApiKey) :=
  if !settings.authRequired || !scope.isProtected settings then .ok none
  else
    match resolveApiKey hash keys (bearerToken scope.headers) with
    | none =>
      if scope.dualTrustPaths then .ok none
      else .error (.denied ⟨"unauthorized", "missing, invalid or revoked API key",
        some "Authorization", 401⟩)
    | some key => do
      let (candidates, orgCandidates) := scope.candidates unquote
      checkProjectScope key.projectId candidates
      checkOrgScope key.orgId orgCandidates
      pure (some key)

end

/-! ## What passes -/

theorem checkProjectScope_eq_ok {keyProjectId : String} {candidates : List PyJson}
    (h : checkProjectScope keyProjectId candidates = .ok ()) :
    ∀ candidate ∈ candidates, isTruthy candidate → candidate = .str keyProjectId := by
  intro candidate hcandidate htruthy
  by_contra hne
  rw [checkProjectScope, if_pos ⟨candidate, hcandidate, htruthy, hne⟩] at h
  cases h

theorem checkOrgScope_eq_ok {keyOrgId : String} {candidates : List PyJson}
    (h : checkOrgScope keyOrgId candidates = .ok ()) :
    ∀ candidate ∈ candidates, candidate ≠ .null → candidate = .str keyOrgId := by
  intro candidate hcandidate hnull
  have hclaimed : candidate ∈ candidates.filter (· ≠ .null) :=
    List.mem_filter.mpr ⟨hcandidate, decide_eq_true hnull⟩
  rw [checkOrgScope] at h
  by_contra hne
  split at h
  · cases h
  · rw [if_pos ⟨candidate, hclaimed, hne⟩] at h
    cases h

/-- A key that a request is let through with is the one of its token, and every project id and every
organization id of the request is that of the key. -/
theorem authenticate_eq_ok {hash unquote : String → String} {keys : ApiKeys}
    {settings : AuthSettings} {scope : HttpScope} {key : ApiKey}
    (h : authenticate hash unquote keys settings scope = .ok (some key)) :
    resolveApiKey hash keys (bearerToken scope.headers) = some key ∧
      (∀ candidate ∈ (scope.candidates unquote).1, isTruthy candidate →
        candidate = .str key.projectId) ∧
      ∀ candidate ∈ (scope.candidates unquote).2, candidate ≠ .null →
        candidate = .str key.orgId := by
  rw [authenticate] at h
  split at h
  · cases h
  · split at h
    · split at h <;> cases h
    · next found hfound =>
      obtain ⟨⟨⟩, hproject, h⟩ := bind_eq_ok.mp h
      obtain ⟨⟨⟩, horg, h⟩ := bind_eq_ok.mp h
      cases h
      exact ⟨hfound, checkProjectScope_eq_ok hproject, checkOrgScope_eq_ok horg⟩

end Haki
