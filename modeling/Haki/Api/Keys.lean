import Haki.Control.Interleave
import Haki.Data.Split
import Mathlib.Data.String.Defs

/-!
# Managing API keys

`create_key` and `revoke_key` as statements under READ COMMITTED: the key of the
caller is resolved in a session of its own, and what is added or changed is seen
by others when it is committed (`app.api.routes.keys`, `app.auth`).  Keys that
the console provisions come in between.  With an admin key configured, it alone
gives access; the values of headers are texts in ASCII.
-/

namespace Haki

open Control Data

/-- A row of `api_keys`. -/
structure ApiKey where
  id : Nat
  keyHash : String
  keyPrefix : String
  orgId : String
  projectId : String
  label : Option String
  revoked : Bool
  /-- The caller that created it was not the admin, and presented no valid key. -/
  bootstrap : Bool
deriving DecidableEq, Repr

/-- The headers of a request, with their values. -/
abbrev Headers := List (String × String)

/-- `POST /v1/keys`. -/
structure CreateKeyRequest where
  headers : Headers
  orgId : String
  projectId : String
  label : Option String
deriving DecidableEq, Repr

/-- What a request for a key or a revocation is answered with. -/
inductive KeyResponse where
  | created (id : Nat)
  | revoked (id : Nat)
  | unauthorized
  | forbiddenScope
  | notFound
  /-- The key or its hash is taken. -/
  | failed
deriving DecidableEq, Repr

/-- Where a request stands: the statement it runs next. -/
inductive KeyPhase where
  | ahead
  /-- `SELECT count(*)`, for a caller without a valid key. -/
  | counting (request : CreateKeyRequest)
  /-- The commit of a new key. -/
  | adding (request : CreateKeyRequest) (orgId projectId : String) (bootstrap : Bool)
  /-- The key to revoke is loaded; the admin has no key of its own. -/
  | loading (id : Nat) (caller : Option ApiKey)
  /-- The commit of a revocation. -/
  | revoking (id : Nat)
  | done (response : KeyResponse)
  | dead
deriving DecidableEq, Repr

/-- A turn of a request. -/
inductive KeyTurn where
  | create (request : CreateKeyRequest)
  | revoke (headers : Headers) (id : Nat)
  /-- The next statement; a new key is drawn when it is committed. -/
  | proceed (clear : String)
  | die
deriving DecidableEq, Repr

/-- The committed keys, oldest first. -/
abbrev ApiKeys := List ApiKey

/-! ## The caller -/

/-- The first value of the header that is named, in any case. -/
def Headers.get (headers : Headers) (name : String) : Option String :=
  (headers.find? fun header ↦ header.1.toList.map Char.toLower = name.toList).map (·.2)

/-- `constant_time_bearer_match`. -/
def constantTimeBearerMatch (authorizationHeader : Option String) (secret : String) : Bool :=
  authorizationHeader.getD "" = "Bearer " ++ secret

/-- `bearer_token`. -/
def bearerToken (headers : Headers) : Option String :=
  match headers.get "authorization" with
  | none => none
  | some value =>
    let text := strip isSpace value.toList
    if (text.take 7).map Char.toLower = "bearer ".toList then
      some (String.ofList (strip isSpace (text.drop 7)))
    else none

section

variable (hash : String → String) (adminKey : String) (keys : ApiKeys)

/-- `resolve_api_key`. -/
def resolveApiKey (token : Option String) : Option ApiKey :=
  match token with
  | none => none
  | some token =>
    if "hk_".isPrefixOf token then
      (keys.find? fun key ↦ key.keyHash = hash token).filter fun key ↦ !key.revoked
    else none

/-- `_caller`: whether it is the admin, and its valid key. -/
def keyCaller (headers : Headers) : Bool × Option ApiKey :=
  if adminKey ≠ "" then
    (constantTimeBearerMatch (headers.get "authorization") adminKey, none)
  else (false, resolveApiKey hash keys (bearerToken headers))

/-- A key that none of the rows has. -/
def freshKeyId : Nat := (keys.map ApiKey.id).foldr max 0 + 1

/-- The row of a new key. -/
def newKey (clear : String) (request : CreateKeyRequest) (orgId projectId : String)
    (bootstrap : Bool) : ApiKey where
  id := freshKeyId keys
  keyHash := hash clear
  keyPrefix := String.ofList (clear.toList.take 8)
  orgId := orgId
  projectId := projectId
  label := request.label
  revoked := false
  bootstrap := bootstrap

/-- `create_key`, until it counts the keys or adds one. -/
def createKey (request : CreateKeyRequest) : KeyPhase :=
  let (isAdmin, caller) := keyCaller hash adminKey keys request.headers
  if adminKey ≠ "" ∧ !isAdmin then .done .unauthorized
  else if isAdmin then .adding request request.orgId request.projectId false
  else
    match caller with
    | some caller =>
      if request.projectId ≠ caller.projectId ∨ request.orgId ≠ caller.orgId then
        .done .forbiddenScope
      else .adding request caller.orgId caller.projectId false
    | none => .counting request

/-- `revoke_key`, until it loads the key. -/
def revokeKey (headers : Headers) (id : Nat) : KeyPhase :=
  let (isAdmin, caller) := keyCaller hash adminKey keys headers
  if adminKey ≠ "" ∧ !isAdmin then .done .unauthorized
  else if !isAdmin ∧ caller = none then .done .unauthorized
  else .loading id caller

/-- The next statement of a request. -/
def proceedKey (clear : String) : KeyPhase → Option (ApiKeys × KeyPhase)
  | .counting request =>
    some (keys, if keys.length ≠ 0 then .done .unauthorized
      else .adding request request.orgId request.projectId true)
  | .adding request orgId projectId bootstrap =>
    if hash clear ∈ keys.map ApiKey.keyHash then some (keys, .done .failed)
    else some (keys ++ [newKey hash keys clear request orgId projectId bootstrap],
      .done (.created (freshKeyId keys)))
  | .loading id caller =>
    some (keys, match keys.find? fun key ↦ key.id = id with
      | some key =>
        if ∃ own ∈ caller, key.projectId ≠ own.projectId then .done .notFound else .revoking id
      | none => .done .notFound)
  | .revoking id =>
    some (keys.map fun key ↦ if key.id = id then { key with revoked := true } else key,
      .done (.revoked id))
  | _ => none

/-- What a request can do. -/
def keyTurn : KeyTurn → KeyPhase → Option (ApiKeys × KeyPhase)
  | .create request, .ahead => some (keys, createKey hash adminKey keys request)
  | .revoke headers id, .ahead => some (keys, revokeKey hash adminKey keys headers id)
  | .proceed clear, phase => proceedKey hash keys clear phase
  | .die, .ahead | .die, .done _ | .die, .dead => none
  | .die, _ => some (keys, .dead)
  | _, _ => none

end

/-- Requests side by side, while the console provisions keys of its own. -/
def keyHandlers (hash : String → String) (adminKey : String) (ι : Type) :
    Handlers ι KeyTurn ApiKey ApiKeys KeyPhase where
  turn _ m keys phase := keyTurn hash adminKey keys m phase
  env key keys :=
    if key.bootstrap ∨ key.id ∈ keys.map ApiKey.id ∨ key.keyHash ∈ keys.map ApiKey.keyHash then none
    else some (keys ++ [key])

/-! ## What a turn does -/

section

variable {hash : String → String} {adminKey : String} {keys keys' : ApiKeys} {m : KeyTurn}
  {phase phase' : KeyPhase} {headers : Headers} {request : CreateKeyRequest}

/-- The key of a token is one of the keys. -/
theorem mem_of_resolveApiKey {token : Option String} {key : ApiKey}
    (h : resolveApiKey hash keys token = some key) : key ∈ keys := by
  cases token with
  | none => cases h
  | some token =>
    rw [resolveApiKey] at h
    split at h
    · exact List.mem_of_find?_eq_some (Option.filter_eq_some_iff.mp h).1
    · cases h

/-- An admin key is configured, and the request carries it. -/
def IsAdmin (adminKey : String) (headers : Headers) : Prop :=
  adminKey ≠ "" ∧ constantTimeBearerMatch (headers.get "authorization") adminKey

instance : Decidable (IsAdmin adminKey headers) := inferInstanceAs (Decidable (_ ∧ _))

/-- The request is over, and has changed nothing. -/
def KeyPhase.Refused : KeyPhase → Prop
  | .done (.created _) | .done (.revoked _) => False
  | .done _ | .dead => True
  | _ => False

/-- The turns of a request. -/
inductive KeyStep (hash : String → String) (adminKey : String) (keys : ApiKeys) :
    KeyTurn → KeyPhase → ApiKeys → KeyPhase → Prop
  | stop (m : KeyTurn) (phase phase' : KeyPhase) (refused : phase'.Refused) :
    KeyStep hash adminKey keys m phase keys phase'
  | admin (request : CreateKeyRequest) (isAdmin : IsAdmin adminKey request.headers) :
    KeyStep hash adminKey keys (.create request) .ahead keys
      (.adding request request.orgId request.projectId false)
  | caller (request : CreateKeyRequest) (key : ApiKey)
    (valid : resolveApiKey hash keys (bearerToken request.headers) = some key) :
    KeyStep hash adminKey keys (.create request) .ahead keys
      (.adding request key.orgId key.projectId false)
  | count (request : CreateKeyRequest) (unset : adminKey = "") :
    KeyStep hash adminKey keys (.create request) .ahead keys (.counting request)
  | first (clear : String) (request : CreateKeyRequest) (none : keys = []) :
    KeyStep hash adminKey keys (.proceed clear) (.counting request) keys
      (.adding request request.orgId request.projectId true)
  | add (clear : String) (request : CreateKeyRequest) (orgId projectId : String) (bootstrap : Bool) :
    KeyStep hash adminKey keys (.proceed clear) (.adding request orgId projectId bootstrap)
      (keys ++ [newKey hash keys clear request orgId projectId bootstrap])
      (.done (.created (freshKeyId keys)))
  | load (headers : Headers) (id : ℕ) (caller : Option ApiKey) :
    KeyStep hash adminKey keys (.revoke headers id) .ahead keys (.loading id caller)
  | found (clear : String) (id : ℕ) (caller : Option ApiKey) (stored : id ∈ keys.map ApiKey.id) :
    KeyStep hash adminKey keys (.proceed clear) (.loading id caller) keys (.revoking id)
  | revoke (clear : String) (id : ℕ) :
    KeyStep hash adminKey keys (.proceed clear) (.revoking id)
      (keys.map fun key ↦ if key.id = id then { key with revoked := true } else key)
      (.done (.revoked id))

theorem createKey_step :
    KeyStep hash adminKey keys (.create request) .ahead keys
      (createKey hash adminKey keys request) := by
  rw [createKey, keyCaller]
  by_cases hadmin : adminKey = ""
  · simp only [hadmin, ne_eq, not_true_eq_false, if_false, false_and, Bool.false_eq_true]
    split
    · next caller hcaller =>
      split
      · exact .stop _ _ _ trivial
      · exact .caller request caller hcaller
    · exact .count request rfl
  · simp only [ne_eq, hadmin, not_false_eq_true, if_true, true_and]
    cases hmatch : constantTimeBearerMatch (request.headers.get "authorization") adminKey with
    | false => exact .stop _ _ _ trivial
    | true => exact .admin request ⟨hadmin, hmatch⟩

theorem revokeKey_step {id : ℕ} :
    KeyStep hash adminKey keys (.revoke headers id) .ahead keys
      (revokeKey hash adminKey keys headers id) := by
  rw [revokeKey]
  split
  split
  · exact .stop _ _ _ trivial
  · split
    · exact .stop _ _ _ trivial
    · exact .load headers id _

theorem proceedKey_step {clear : String}
    (h : proceedKey hash keys clear phase = some (keys', phase')) :
    KeyStep hash adminKey keys (.proceed clear) phase keys' phase' := by
  cases phase with
  | counting request =>
    cases h
    split
    · exact .stop _ _ _ trivial
    · next hlength => exact .first clear request (List.length_eq_zero_iff.mp (not_not.mp hlength))
  | adding request orgId projectId bootstrap =>
    rw [proceedKey] at h
    split at h
    · cases h
      exact .stop _ _ _ trivial
    · cases h
      exact .add clear request orgId projectId bootstrap
  | loading id caller =>
    cases h
    split
    · next key hfind =>
      split
      · exact .stop _ _ _ trivial
      · have hid : key.id = id := by simpa using List.find?_some hfind
        exact .found clear id caller (hid ▸ List.mem_map_of_mem (List.mem_of_find?_eq_some hfind))
    · exact .stop _ _ _ trivial
  | revoking id =>
    cases h
    exact .revoke clear id
  | ahead => cases h
  | done response => cases h
  | dead => cases h

/-- What every turn does. -/
theorem keyTurn_step (h : keyTurn hash adminKey keys m phase = some (keys', phase')) :
    KeyStep hash adminKey keys m phase keys' phase' := by
  unfold keyTurn at h
  split at h
  · cases h
    exact createKey_step
  · cases h
    exact revokeKey_step
  · exact proceedKey_step h
  · cases h
  · cases h
  · cases h
  · cases h
    exact .stop _ _ _ trivial
  · cases h

end

end Haki
