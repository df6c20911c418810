import Haki.Api.Http
import Haki.Properties.Isolation

/-!
# A key gives access to one project

The middleware lets a request through when the ids it finds in the query and in
the body are those of the key; the route reads the project it acts on later, and
not always the same way: the middleware drops blank query fields and looks at
all the others, the route keeps them and takes the last.  Whatever a request
carries, its route is about the project of its key (`HttpRequest.call_of`).  So
in any interleaving of requests and polls the tenants do not interfere
(`serveAll_only`).  The one route that is about every project is guarded by the
admin key, and is a poll.
-/

namespace Haki

open Data Control

variable {w : Ownership} {hash unquote : String → String} {senv : ServiceEnv} {p : String}
  {keys : ApiKeys} {settings : AuthSettings} {key : ApiKey} {request : HttpRequest}

/-! ## Paths -/

/-- How a long path starts. -/
theorem startsWith_append {path rest start : String}
    (h : start.toList.length ≤ path.toList.length) :
    startsWith (path ++ rest) start = startsWith path start := by
  rw [startsWith, startsWith, Bool.eq_iff_iff, List.isPrefixOf_iff_prefix,
    List.isPrefixOf_iff_prefix, String.toList_append]
  constructor
  · intro hprefix
    exact List.prefix_of_prefix_length_le hprefix (List.prefix_append _ _) h
  · intro hprefix
    exact hprefix.trans (List.prefix_append _ _)

theorem startsWith_trans {path start s : String} (h : startsWith path start = true)
    (hs : startsWith start s = true) : startsWith path s = true := by
  rw [startsWith, List.isPrefixOf_iff_prefix] at h hs ⊢
  exact hs.trans h

/-- Slashes are only taken from the end. -/
theorem startsWith_rstripSlash (path : String) : startsWith path (rstripSlash path) = true := by
  rw [startsWith, List.isPrefixOf_iff_prefix, rstripSlash, String.toList_ofList]
  exact List.rdropWhile_prefix _ _

/-- A path that parts early from those the middleware makes an exception for. -/
def Apart (path : String) : Prop :=
  startsWith path "/v1/" = true ∧
    ∀ start ∈ ["/v1/k", "/v1/o", "/v1/b", "/v1/w", "/v1/cl", "/v1/cons"],
      startsWith path start = false

instance (path : String) : Decidable (Apart path) := inferInstanceAs (Decidable (_ ∧ _))

theorem Apart.append {path : String} (h : Apart path) (hlong : 8 ≤ path.toList.length)
    (rest : String) : Apart (path ++ rest) := by
  constructor
  · rw [startsWith_append (le_trans (by decide) hlong)]
    exact h.1
  · intro start hstart
    have hshort : ∀ start ∈ ["/v1/k", "/v1/o", "/v1/b", "/v1/w", "/v1/cl", "/v1/cons"],
        start.toList.length ≤ 8 := by decide
    rw [startsWith_append ((hshort start hstart).trans hlong)]
    exact h.2 start hstart

/-- Such a path starts like none of the exceptions. -/
theorem Apart.startsWith_eq_false {path exception : String} (h : Apart path)
    (he : ∃ start ∈ ["/v1/k", "/v1/o", "/v1/b", "/v1/w", "/v1/cl", "/v1/cons"],
      startsWith exception start = true) : startsWith path exception = false := by
  obtain ⟨start, hstart, he⟩ := he
  by_contra hpath
  have hprefix := startsWith_trans (eq_true_of_ne_false hpath) he
  rw [h.2 start hstart] at hprefix
  cases hprefix

/-- Nor is it one of them once its slashes are stripped. -/
theorem Apart.rstripSlash_ne {path exception : String} (h : Apart path)
    (he : ∃ start ∈ ["/v1/k", "/v1/o", "/v1/b", "/v1/w", "/v1/cl", "/v1/cons"],
      startsWith exception start = true) : rstripSlash path ≠ exception := by
  rintro rfl
  have hstart := startsWith_rstripSlash path
  rw [h.startsWith_eq_false he] at hstart
  cases hstart

/-- Such a path needs a key, and a request without one is refused. -/
theorem HttpScope.guarded {scope : HttpScope} (h : Apart scope.path) :
    scope.isProtected settings = true ∧ scope.dualTrustPaths = false := by
  have hkeys : startsWith scope.path "/v1/keys" = false := h.startsWith_eq_false (by decide)
  have horgs : startsWith scope.path "/v1/orgs" = false := h.startsWith_eq_false (by decide)
  have hbilling : startsWith scope.path "/v1/billing" = false := h.startsWith_eq_false (by decide)
  have hwebhooks : startsWith scope.path "/v1/webhooks" = false := h.startsWith_eq_false (by decide)
  have hdevice : startsWith scope.path "/v1/cli/device" = false := h.startsWith_eq_false (by decide)
  have hconsolidate : rstripSlash scope.path ≠ "/v1/consolidate" := h.rstripSlash_ne (by decide)
  have hsettings : rstripSlash scope.path ≠ "/v1/orgs/settings" := h.rstripSlash_ne (by decide)
  have hmembers : rstripSlash scope.path ≠ "/v1/orgs/members" := h.rstripSlash_ne (by decide)
  have hsummary : rstripSlash scope.path ≠ "/v1/billing/summary" := h.rstripSlash_ne (by decide)
  constructor
  · simp [HttpScope.isProtected, HttpScope.unscopedConsolidate, h.1, hkeys, horgs, hbilling,
      hwebhooks, hdevice, hconsolidate]
  · simp [HttpScope.dualTrustPaths, HttpScope.keyOrgPaths, hsettings, hmembers, hsummary]

/-- The paths of the routes of one project. -/
theorem Endpoint.path_cases {endpoint : Endpoint} (h : endpoint.isConsolidate = false) :
    Apart endpoint.path ∨ endpoint.path = "/gateway/v1/chat/completions" ∨
      endpoint.path = "/v1/consolidate/subject" := by
  cases endpoint with
  | chat => exact .inr (.inl rfl)
  | consolidateSubject => exact .inr (.inr rfl)
  | consolidate => cases h
  | resolveConflict text now id kept =>
    have hstart : Apart "/v1/conflicts/" := by decide
    refine .inl ?_
    rw [Endpoint.path, String.append_assoc]
    exact hstart.append (by decide) _
  | read route =>
    refine .inl ?_
    cases route with
    | inspect text id =>
      have hstart : Apart "/v1/inspect/" := by decide
      exact hstart.append (by decide) text
    | _ =>
      rw [Endpoint.path, Read.path]
      decide
  | _ =>
    refine .inl ?_
    rw [Endpoint.path]
    decide

/-- Every route of one project needs a key. -/
theorem HttpRequest.guarded (h : request.endpoint.isConsolidate = false) :
    request.scope.isProtected settings = true ∧ request.scope.dualTrustPaths = false := by
  rcases Endpoint.path_cases h with hapart | hpath | hpath
  · exact HttpScope.guarded hapart
  · have hpath : request.scope.path = "/gateway/v1/chat/completions" := hpath
    have hgateway : startsWith "/gateway/v1/chat/completions" "/gateway/v1/" = true := by decide
    have hstripped :
        rstripSlash "/gateway/v1/chat/completions" = "/gateway/v1/chat/completions" := by decide
    constructor
    · simp [HttpScope.isProtected, hpath, hgateway]
    · simp [HttpScope.dualTrustPaths, HttpScope.keyOrgPaths, hpath, hstripped]
  · have hpath : request.scope.path = "/v1/consolidate/subject" := hpath
    have hstripped : rstripSlash "/v1/consolidate/subject" = "/v1/consolidate/subject" := by decide
    have hstarts : startsWith "/v1/consolidate/subject" "/v1/" = true ∧
        ∀ start ∈ ["/v1/keys", "/v1/orgs", "/v1/billing", "/v1/webhooks", "/v1/cli/device"],
          startsWith "/v1/consolidate/subject" start = false := by decide
    simp only [List.forall_mem_cons] at hstarts
    constructor
    · simp [HttpScope.isProtected, HttpScope.unscopedConsolidate, hpath, hstripped, hstarts]
    · simp [HttpScope.dualTrustPaths, HttpScope.keyOrgPaths, hpath, hstripped]

/-! ## The project of a call -/

/-- Every project id of the request is that of the key, or is false in a condition, and every
organization id is that of the key, or is null. -/
structure HttpRequest.Bound (unquote : String → String) (request : HttpRequest) (key : ApiKey) :
    Prop where
  projects : ∀ candidate ∈ (request.scope.candidates unquote).1, isTruthy candidate →
    candidate = .str key.projectId
  orgs : ∀ candidate ∈ (request.scope.candidates unquote).2, candidate ≠ .null →
    candidate = .str key.orgId

/-- A request for one project that is let through comes with a key, and is bound to it. -/
theorem HttpRequest.authenticated (hauth : settings.authRequired = true)
    (hone : request.endpoint.isConsolidate = false) {found : Option ApiKey}
    (h : authenticate hash unquote keys settings request.scope = .ok found) :
    ∃ key, found = some key ∧ resolveApiKey hash keys (bearerToken request.headers) = some key ∧
      request.Bound unquote key := by
  cases found with
  | some key =>
    obtain ⟨hkey, hprojects, horgs⟩ := authenticate_eq_ok h
    exact ⟨key, rfl, hkey, hprojects, horgs⟩
  | none =>
    have hguarded : request.scope.isProtected settings = true ∧ _ := HttpRequest.guarded hone
    obtain ⟨hprotected, hdual⟩ := hguarded
    rw [authenticate, hauth, hprotected, if_neg (by decide)] at h
    split at h
    · rw [hdual, if_neg Bool.false_ne_true] at h
      cases h
    · obtain ⟨-, -, h⟩ := bind_eq_ok.mp h
      obtain ⟨-, -, h⟩ := bind_eq_ok.mp h
      cases h

/-- What a request draws is drawn for the project `p`, and the organization of one that lists its
projects is seen as a whole. -/
def Endpoint.Draws (w : Ownership) (p : String) : Endpoint → Prop
  | .capture _ _ batch => ∀ sent ∈ batch, w.owner sent.1 = p
  | .chat _ _ _ _ reply => ∀ packet, ∀ e ∈ reply packet, w.owner e.1 = p
  | .projects => w.Shared (w.orgOf p)
  | _ => True

namespace HttpRequest.Bound

variable {value : String} {entries : List (String × PyJson)}

theorem eq_of_mem (h : request.Bound unquote key)
    (hmem : .str value ∈ (request.scope.candidates unquote).1) (hne : value ≠ "") :
    value = key.projectId := by
  have htruthy : isTruthy (.str value) = true := decide_eq_true hne
  exact Json.str.inj (h.projects _ hmem htruthy)

/-- A parameter of the query, as the route reads it. -/
theorem query (h : request.Bound unquote key) (hunquote : unquote "" = "")
    (hparam : queryParam unquote request.queryString "project_id" = some value) (hne : value ≠ "") :
    value = key.projectId := by
  have hvalue : value ∈ queryValues unquote request.queryString "project_id" :=
    mem_queryValues_of_queryParam hunquote hparam hne
  exact h.eq_of_mem (List.mem_append_left _ (List.mem_map_of_mem hvalue)) hne

/-- The ids that the middleware finds in the body. -/
theorem candidates_body (hpost : request.endpoint.method = "POST")
    (hbody : request.body = some (.obj entries)) :
    request.scope.candidates unquote =
      ((queryValues unquote request.queryString "project_id").map .str ++
          (bodyScopeIds (.obj entries)).1,
        (queryValues unquote request.queryString "org_id").map .str ++
          (bodyScopeIds (.obj entries)).2) := by
  have hmethod : request.scope.method ∈ ["POST", "PUT", "PATCH"] := List.mem_cons.mpr (.inl hpost)
  have hscope : request.scope.body = some (.obj entries) := hbody
  rw [HttpScope.candidates, if_pos hmethod, hscope]
  rfl

/-- A project id in the body. -/
theorem body (h : request.Bound unquote key) (hpost : request.endpoint.method = "POST")
    (hbody : request.body = some (.obj entries))
    (hmem : .str value ∈ (bodyScopeIds (.obj entries)).1) (hne : value ≠ "") :
    value = key.projectId := by
  refine h.eq_of_mem ?_ hne
  rw [candidates_body hpost hbody]
  exact List.mem_append_right _ hmem

/-- An organization id in the body. -/
theorem bodyOrg (h : request.Bound unquote key) (hpost : request.endpoint.method = "POST")
    (hbody : request.body = some (.obj entries))
    (hmem : .str value ∈ (bodyScopeIds (.obj entries)).2) : value = key.orgId := by
  refine Json.str.inj (h.orgs (.str value) ?_ (by rintro ⟨⟩))
  rw [candidates_body hpost hbody]
  exact List.mem_append_right _ hmem

end HttpRequest.Bound

theorem scopeField_eq_some {entries : List (String × PyJson)} {name value : String}
    (h : scopeField entries name = some value) :
    entryGet entries name = .str value ∧ value ≠ "" := by
  rw [scopeField] at h
  split at h
  · next s hs =>
    obtain ⟨hlength, h⟩ := Option.ite_none_right_eq_some.mp h
    obtain rfl := Option.some.inj h
    refine ⟨hs, ?_⟩
    rintro rfl
    exact absurd hlength.1 (by decide)
  · cases h

theorem entries?_eq_some {value : PyJson} {entries : List (String × PyJson)}
    (h : value.entries? = some entries) : value = .obj entries := by
  cases value <;> cases h
  rfl

/-- The project of a body is that of the key. -/
theorem bodyProject_eq (h : request.Bound unquote key) (hpost : request.endpoint.method = "POST")
    {value : String} (hvalue : bodyProject request.body = some value) : value = key.projectId := by
  obtain ⟨entries, hentries, hfield⟩ := Option.bind_eq_some_iff.mp hvalue
  obtain ⟨body, hbody, hobj⟩ := Option.bind_eq_some_iff.mp hentries
  obtain rfl := entries?_eq_some hobj
  obtain ⟨hget, hne⟩ := scopeField_eq_some hfield
  exact h.body hpost hbody (hget ▸ List.mem_cons_self) hne

/-- The events of a batch are those that were drawn, each in the organization and the project of its
object. -/
theorem mem_batchEvents {sent : List PyJson} {drawn events : List (EventId × SdkEvent)}
    (h : batchEvents sent drawn = some events) :
    ∀ event ∈ events, (∃ d ∈ drawn, event.1 = d.1) ∧ event.2.projectId ≠ "" ∧
      ∃ entries, .obj entries ∈ sent ∧ entryGet entries "project_id" = .str event.2.projectId ∧
        entryGet entries "org_id" = .str event.2.orgId := by
  induction sent generalizing drawn events with
  | nil =>
    cases drawn with
    | nil =>
      cases h
      exact fun event hevent ↦ absurd hevent List.not_mem_nil
    | cons d drawn => cases h
  | cons object sent ih =>
    cases drawn with
    | nil => cases h
    | cons d drawn =>
      obtain ⟨entries, hentries, h⟩ := Option.bind_eq_some_iff.mp h
      obtain ⟨orgId, horg, h⟩ := Option.bind_eq_some_iff.mp h
      obtain ⟨projectId, hproject, h⟩ := Option.bind_eq_some_iff.mp h
      obtain ⟨rest, hrest, h⟩ := Option.bind_eq_some_iff.mp h
      cases h
      obtain rfl := entries?_eq_some hentries
      obtain ⟨hget, hne⟩ := scopeField_eq_some hproject
      obtain ⟨hgetOrg, -⟩ := scopeField_eq_some horg
      intro event hevent
      rcases List.mem_cons.mp hevent with rfl | hevent
      · exact ⟨⟨d, List.mem_cons_self, rfl⟩, hne, entries, List.mem_cons_self, hget, hgetOrg⟩
      · obtain ⟨⟨d', hd', hid⟩, hne', entries', hmem, hget'⟩ := ih hrest event hevent
        exact ⟨⟨d', List.mem_cons_of_mem _ hd', hid⟩, hne', entries', List.mem_cons_of_mem _ hmem,
          hget'⟩

/-- Every event of a batch is of the project of the key. -/
theorem captureBatch_of (h : request.Bound unquote key) (hpost : request.endpoint.method = "POST")
    (horg : key.orgId = w.orgOf key.projectId) {drawn events : List (EventId × SdkEvent)}
    (hdrawn : ∀ sent ∈ drawn, w.owner sent.1 = key.projectId)
    (hbatch : captureBatch request.body drawn = some events) :
    DrawnFor w key.projectId events := by
  obtain ⟨entries, hentries, hbatch⟩ := Option.bind_eq_some_iff.mp hbatch
  obtain ⟨body, hbody, hobj⟩ := Option.bind_eq_some_iff.mp hentries
  obtain rfl := entries?_eq_some hobj
  split at hbatch
  · next sent hsent =>
    obtain ⟨-, hbatch⟩ := Option.ite_none_right_eq_some.mp hbatch
    intro event hevent
    obtain ⟨⟨d, hd, hid⟩, hne, object, hobject, hproject, hgetOrg⟩ :=
      mem_batchEvents hbatch event hevent
    have hfield {name value : String} (hget : entryGet object name = .str value) :
        .str value ∈ (sent.filterMap Json.entries?).map fun event ↦ entryGet event name :=
      List.mem_map.mpr ⟨object, List.mem_filterMap.mpr ⟨.obj object, hobject, rfl⟩, hget⟩
    refine ⟨hid ▸ hdrawn d hd, h.body hpost hbody (List.mem_cons_of_mem _ ?_) hne,
      (h.bodyOrg hpost hbody (List.mem_cons_of_mem _ ?_)).trans horg⟩
    · rw [hsent]
      exact hfield hproject
    · rw [hsent]
      exact hfield hgetOrg
  · cases hbatch

/-- The projects an organization lists are its own. -/
theorem mem_orgProjects {orgId q : String} (h : q ∈ orgProjects keys orgId) :
    ∃ key ∈ keys, key.orgId = orgId ∧ key.projectId = q := by
  rw [orgProjects, List.mem_insertionSort, List.mem_eraseDups] at h
  obtain ⟨key, hkey, hproject⟩ := List.mem_map.mp h
  obtain ⟨hkey, horg⟩ := List.mem_filter.mp hkey
  exact ⟨key, hkey, of_decide_eq_true horg, hproject⟩

/-- **Binding.**  Whatever a request carries, its route is about the project of its key. -/
theorem HttpRequest.call_of (hunquote : unquote "" = "") (h : request.Bound unquote key)
    (horgs : ∀ key ∈ keys, key.orgId = w.orgOf key.projectId) (hkey : key ∈ keys)
    (hdraws : request.endpoint.Draws w key.projectId) {call : RouteCall}
    (hcall : request.call unquote keys (some key) = some call) : call.Of w key.projectId := by
  have hbody {f : String → RouteCall} (hpost : request.endpoint.method = "POST")
      (hf : (bodyProject request.body).map f = some call) : call = f key.projectId := by
    obtain ⟨value, hvalue, rfl⟩ := Option.map_eq_some_iff.mp hf
    rw [bodyProject_eq h hpost hvalue]
  rw [HttpRequest.call] at hcall
  cases hendpoint : request.endpoint with
  | capture batchKey now batch =>
    simp only [hendpoint] at hcall hdraws
    obtain ⟨events, hbatch, rfl⟩ := Option.map_eq_some_iff.mp hcall
    exact captureBatch_of h (by rw [hendpoint]; rfl) (horgs key hkey) hdraws hbatch
  | chat reader turn now traceId reply =>
    simp only [hendpoint] at hcall hdraws
    cases hcall
    exact ⟨rfl, horgs key hkey, hdraws⟩
  | consolidateSubject now extract =>
    simp only [hendpoint] at hcall
    obtain ⟨projectId, hproject, hcall⟩ := Option.bind_eq_some_iff.mp hcall
    obtain ⟨subjectId, -, hcall⟩ := Option.bind_eq_some_iff.mp hcall
    cases hcall
    obtain ⟨hparam, hne⟩ := Option.filter_eq_some_iff.mp hproject
    exact h.query hunquote hparam (of_decide_eq_true hne)
  | consolidate now extract =>
    simp only [hendpoint] at hcall
    cases hcall
  | projects =>
    simp only [hendpoint] at hcall hdraws
    cases hcall
    refine ⟨hdraws, fun q hq ↦ ?_⟩
    obtain ⟨other, hother, horg, rfl⟩ := mem_orgProjects hq
    rw [← horgs other hother, horg, horgs key hkey]
  | read route =>
    simp only [hendpoint] at hcall
    cases hcall
    intro q hq
    exact or_iff_not_imp_left.mpr fun hne ↦ h.query hunquote hq hne
  | _ =>
    simp only [hendpoint] at hcall
    obtain rfl := hbody (by rw [hendpoint]; rfl) hcall
    exact rfl

/-! ## Tenants -/

/-- Every key is of the organization of its project, and what a step draws is drawn for the project
of its key. -/
def ServerStep.Draws (hash : String → String) (w : Ownership) : ServerStep → Prop
  | .http keys request => (∀ key ∈ keys, key.orgId = w.orgOf key.projectId) ∧
      ∀ key ∈ resolveApiKey hash keys (bearerToken request.headers),
        request.endpoint.Draws w key.projectId
  | .work _ _ => True

namespace ServerStep

section

variable (hash unquote : String → String) (settings : AuthSettings) (t : Tenants)

/-- The step is a request of the tenants. -/
def told (step : ServerStep) : Bool := (step.tenant hash unquote settings).any t.projects

/-- The step is a request of the tenants, or runs the whole queue. -/
def seen (step : ServerStep) : Bool := step.isPoll || step.told hash unquote settings t

end

variable {t : Tenants} {step : ServerStep}

/-- A request that is let through to the route that runs the whole queue does so. -/
theorem step_consolidate (hall : request.endpoint.isConsolidate = true) {found : Option ApiKey}
    {action : ServiceStep} (h : request.step unquote keys settings found = .ok action) :
    ∃ now extract, action = .poll now extract := by
  rw [HttpRequest.step.eq_def] at h
  cases hendpoint : request.endpoint with
  | consolidate now extract =>
    rw [hendpoint] at h
    dsimp only at h
    split at h
    · cases h
    · cases h
      exact ⟨now, extract, rfl⟩
  | _ =>
    rw [hendpoint] at hall
    cases hall

/-- A request with a key is refused, is not valid, or is a call of the project of the key. -/
theorem step_eq_ok (hone : request.endpoint.isConsolidate = false) {action : ServiceStep}
    (h : request.step unquote keys settings (some key) = .ok action) :
    ∃ call, request.call unquote keys (some key) = some call ∧ action = .call key.projectId call := by
  rw [HttpRequest.step.eq_def] at h
  split at h
  · next hendpoint =>
    rw [hendpoint] at hone
    cases hone
  · next hkey => cases hkey
  · split at h
    · cases h
    · next call hcall =>
      cases h
      exact ⟨call, hcall, rfl⟩

/-- A step does nothing, or is a step of the service for the project of its key. -/
theorem serve_cases (senv : ServiceEnv) (hauth : settings.authRequired = true)
    (hunquote : unquote "" = "") (hdraws : step.Draws hash w) :
    (∃ result, ∀ s, step.serve hash unquote settings senv s = (result, s)) ∨
      ∃ action : ServiceStep, action.Of w ∧
        (∀ s, step.serve hash unquote settings senv s =
          Prod.map .answered id (action.answer senv s)) ∧
        ∀ t, action.seen t = step.seen hash unquote settings t ∧
          action.told t = step.told hash unquote settings t := by
  cases step with
  | work now extract => exact .inr ⟨.poll now extract, trivial, fun s ↦ rfl, fun t ↦ ⟨rfl, rfl⟩⟩
  | http keys request =>
    cases hfound : authenticate hash unquote keys settings request.scope with
    | error e =>
      refine .inl ⟨.refused e, fun s ↦ ?_⟩
      rw [serve, HttpRequest.serve, hfound]
    | ok found =>
      cases hstep : request.step unquote keys settings found with
      | error result =>
        refine .inl ⟨result, fun s ↦ ?_⟩
        rw [serve, HttpRequest.serve, hfound]
        simp only [hstep]
      | ok action =>
        have hserve (s : Service) :
            (ServerStep.http keys request).serve hash unquote settings senv s =
              Prod.map .answered id (action.answer senv s) := by
          rw [serve, HttpRequest.serve, hfound]
          simp only [hstep]
          rfl
        refine .inr ⟨action, ?_⟩
        cases hone : request.endpoint.isConsolidate with
        | true =>
          obtain ⟨now, extract, rfl⟩ := step_consolidate hone hstep
          refine ⟨trivial, hserve, fun t ↦ ?_⟩
          rw [seen, told, tenant, isPoll, if_pos hone, hone]
          exact ⟨rfl, rfl⟩
        | false =>
          obtain ⟨key, rfl, hkey, hbound⟩ := HttpRequest.authenticated hauth hone hfound
          obtain ⟨call, hcall, rfl⟩ := step_eq_ok hone hstep
          have hof := HttpRequest.call_of hunquote hbound hdraws.1 (mem_of_resolveApiKey hkey)
            (hdraws.2 key hkey) hcall
          refine ⟨hof, hserve, fun t ↦ ?_⟩
          rw [seen, told, tenant, isPoll, hone, if_neg Bool.false_ne_true, hfound]
          exact ⟨rfl, rfl⟩

/-- The tenants see what only their own requests and the runs of the queue change. -/
theorem unwinds (senv : ServiceEnv) (ht : t.Closed w) (hauth : settings.authRequired = true)
    (hunquote : unquote "" = "") :
    Unwinds (fun s (step : ServerStep) ↦ step.serve hash unquote settings senv s) (Service.only t)
      (seen hash unquote settings t) (told hash unquote settings t) (Service.Owned w)
      (Draws hash w) := by
  have hservice := ServiceStep.unwinds senv ht
  constructor
  case inv =>
    intro s step hs hdraws
    rcases serve_cases senv hauth hunquote hdraws with ⟨_, hserve⟩ | ⟨action, hof, hserve, -⟩
    · rw [hserve]
      exact hs
    · rw [hserve]
      exact hservice.inv s action hs hof
  case hidden =>
    intro s step hs hdraws hseen
    rcases serve_cases senv hauth hunquote hdraws with ⟨_, hserve⟩ | ⟨action, hof, hserve, hsame⟩
    · rw [hserve]
    · rw [hserve]
      exact hservice.hidden s action hs hof ((hsame t).1.trans hseen)
  case kept =>
    intro s step hs hdraws hseen
    rcases serve_cases senv hauth hunquote hdraws with ⟨_, hserve⟩ | ⟨action, hof, hserve, hsame⟩
    · rw [hserve, hserve]
    · rw [hserve, hserve]
      exact hservice.kept s action hs hof ((hsame t).1.trans hseen)
  case answer =>
    intro s step hs hdraws htold
    have hseen : step.seen hash unquote settings t = true := by
      rw [seen, htold, Bool.or_true]
    rcases serve_cases senv hauth hunquote hdraws with ⟨_, hserve⟩ | ⟨action, hof, hserve, hsame⟩
    · rw [hserve, hserve]
      exact ⟨hseen, rfl⟩
    · rw [hserve, hserve]
      exact ⟨hseen, congrArg HttpResult.answered
        (hservice.answer s action hs hof ((hsame t).2.trans htold)).2⟩

end ServerStep

/-- **Tenants behind keys.**  In any interleaving of requests and polls, whatever the requests name
in their bodies and queries and whatever keys there are when they arrive, what some tenants are
answered, and what they see of the service at the end, are those of a run of the requests that come
with a key of theirs and the runs of the queue alone, on their accounts. -/
theorem serveAll_only (hauth : settings.authRequired = true) (hunquote : unquote "" = "")
    (w : Ownership) (senv : ServiceEnv) (t : Tenants) (ht : t.Closed w)
    (accounts : String → Option Account) (hshared : ∀ org, (accounts org).isSome → w.Shared org)
    (steps : List ServerStep) (hdraws : ∀ step ∈ steps, step.Draws hash w) :
    (serveAll hash unquote settings senv (.start accounts) steps).1.filter
        (fun r ↦ r.1.told hash unquote settings t) =
      (serveAll hash unquote settings senv (.start (t.accounts accounts))
        (steps.filter (ServerStep.seen hash unquote settings t))).1.filter
          (fun r ↦ r.1.told hash unquote settings t) ∧
    (serveAll hash unquote settings senv (.start accounts) steps).2.only t =
      (serveAll hash unquote settings senv (.start (t.accounts accounts))
        (steps.filter (ServerStep.seen hash unquote settings t))).2 := by
  have hstart : (Service.start accounts).only t = .start (t.accounts accounts) := rfl
  obtain ⟨hanswers, hview⟩ :=
    (ServerStep.unwinds senv ht hauth hunquote).answers (Service.Owned.start hshared) hdraws
  rw [hstart] at hanswers hview
  exact ⟨hanswers.symm, hview.symm⟩

namespace Sample

/-- One key for each of two projects. -/
def twoProjects : ApiKeys :=
  [⟨0, "hk_a", "hk_a", "org", "project", none, false, false⟩,
    ⟨1, "hk_b", "hk_b", "others", "other", none, false, false⟩]

/-- A request with a token, whose body names a project at the top. -/
def post (endpoint : Endpoint) (token projectId : String) : ServerStep :=
  .http twoProjects ⟨endpoint, "", [("Authorization", "Bearer " ++ token)],
    some (.obj [("project_id", .str projectId)])⟩

/-- A request with a token, whose body is a batch of one event. -/
def postEvent (id : EventId) (token orgId projectId : String) : ServerStep :=
  .http twoProjects ⟨.capture none id [(id, message "" "")], "",
    [("Authorization", "Bearer " ++ token)],
    some (.obj [("events", .arr [.obj [("org_id", .str orgId), ("project_id", .str projectId)]])])⟩

/-- One tenant captures under the idempotency key of the other, tries to erase what that has
captured, and to run its jobs; the other lists what is left. -/
def intruder : List ServerStep :=
  [postEvent 1 "hk_b" "others" "other", postEvent 2 "hk_a" "org" "project",
    post (.forget 3 .delete (.subject "subject")) "hk_b" "project",
    post (.consolidate 4 (always [create "city" "Nice"])) "hk_b" "other",
    .work 5 (always [create "city" "Lyon"]),
    .http twoProjects ⟨.projects, "", [("authorization", "bearer hk_a")], none⟩,
    .http twoProjects ⟨.read .timeline, "subject_id=subject&project_id=project&project_id=",
      [("authorization", "bearer hk_a")], none⟩]

/-- The settings of a deployment. -/
def deployed : AuthSettings := ⟨"admin", true⟩

end Sample

theorem serveAll_only_intruder :
    (serveAll id id Sample.deployed Sample.serviceEnv (.start Sample.oneCredit)
        Sample.intruder).1.filter (fun r ↦ r.1.told id id Sample.deployed Sample.firstTenant) =
      (serveAll id id Sample.deployed Sample.serviceEnv
        (.start (Sample.firstTenant.accounts Sample.oneCredit))
        (Sample.intruder.filter
          (ServerStep.seen id id Sample.deployed Sample.firstTenant))).1.filter
            (fun r ↦ r.1.told id id Sample.deployed Sample.firstTenant) ∧
    (serveAll id id Sample.deployed Sample.serviceEnv (.start Sample.oneCredit)
        Sample.intruder).2.only Sample.firstTenant =
      (serveAll id id Sample.deployed Sample.serviceEnv
        (.start (Sample.firstTenant.accounts Sample.oneCredit))
        (Sample.intruder.filter (ServerStep.seen id id Sample.deployed Sample.firstTenant))).2 := by
  have hkeys : ∀ key ∈ Sample.twoProjects, key.orgId = Sample.twoOwners.orgOf key.projectId := by
    decide
  have hfirst : ∀ key ∈ resolveApiKey id Sample.twoProjects
      (bearerToken [("Authorization", "Bearer " ++ "hk_a")]), key.projectId = "project" := by
    decide +kernel
  have hsecond : ∀ key ∈ resolveApiKey id Sample.twoProjects
      (bearerToken [("Authorization", "Bearer " ++ "hk_b")]), key.projectId = "other" := by
    decide +kernel
  have hdraws : ∀ step ∈ Sample.intruder, step.Draws id Sample.twoOwners := by
    simp only [Sample.intruder, List.forall_mem_cons]
    refine ⟨⟨hkeys, fun key hkey ↦ ?_⟩, ⟨hkeys, fun key hkey ↦ ?_⟩, ⟨hkeys, fun _ _ ↦ trivial⟩,
      ⟨hkeys, fun _ _ ↦ trivial⟩, trivial, ⟨hkeys, fun _ _ ↦ trivial⟩, ⟨hkeys, fun _ _ ↦ trivial⟩,
      fun _ h ↦ absurd h List.not_mem_nil⟩
    · rw [hsecond key hkey]
      exact List.forall_mem_singleton.mpr rfl
    · rw [hfirst key hkey]
      exact List.forall_mem_singleton.mpr rfl
  exact serveAll_only rfl rfl Sample.twoOwners Sample.serviceEnv Sample.firstTenant
    Sample.firstTenant_closed Sample.oneCredit (fun _ _ ↦ trivial) Sample.intruder hdraws

/-- The erasure is refused, and the last of two values is the one that a route reads. -/
example : (serveAll id id Sample.deployed Sample.serviceEnv (.start Sample.oneCredit)
      Sample.intruder).1.map (fun r ↦ r.1.tenant id id Sample.deployed) =
    [some "other", some "project", none, none, none, some "project", some "project"] := by
  decide +kernel

end Haki
