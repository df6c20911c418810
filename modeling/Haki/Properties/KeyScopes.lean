import Haki.Api.Keys
import Mathlib.Data.Fintype.Basic

/-!
# What a key gives access to

A caller with a valid key creates keys for its own organization and project
only.  So the scopes that keys give access to never go beyond those the console
and the admin have given and, when no admin key is configured, those of the keys
that were created for free.  A token that was revoked stays refused, in every
order of the statements of any requests; and it was revoked when the revocation
of its key was answered.
-/

namespace Haki

open Control

section

variable {hash : String → String} {adminKey : String} {ι : Type} [DecidableEq ι]
  {c c' c₀ : Config ι ApiKeys KeyPhase} {keys keys' : ApiKeys} {phase phase' : KeyPhase}
  {m : KeyTurn} {key : ApiKey} {granted : String → String → Prop} {orgId projectId : String}

/-! ## Keys over time -/

/-- The key later on: at most it is revoked. -/
structure ApiKey.Follows (key key' : ApiKey) : Prop where
  row : key' = { key with revoked := key'.revoked }
  revoked : key.revoked = true → key'.revoked = true

/-- The keys later on: each is where it was, and keys with ids of their own come after. -/
def KeysFollow (keys keys' : ApiKeys) : Prop :=
  ∃ (g : ApiKey → ApiKey) (new : ApiKeys), keys' = keys.map g ++ new ∧
    (∀ key : ApiKey, key.Follows (g key)) ∧ ∀ key ∈ new, key.id ∉ keys.map ApiKey.id

theorem ApiKey.Follows.refl (key : ApiKey) : key.Follows key := ⟨rfl, fun h ↦ h⟩

theorem KeysFollow.append (h : key.id ∉ keys.map ApiKey.id) : KeysFollow keys (keys ++ [key]) := by
  refine ⟨id, [key], by rw [List.map_id], .refl, fun key' hkey' ↦ ?_⟩
  obtain rfl := List.mem_singleton.mp hkey'
  exact h

theorem KeysFollow.refl (keys : ApiKeys) : KeysFollow keys keys :=
  ⟨id, [], by rw [List.map_id, List.append_nil], .refl, fun _ h ↦ by cases h⟩

/-- The keys after a revocation. -/
theorem keysFollow_revoke (keys : ApiKeys) (id : ℕ) : KeysFollow keys
    (keys.map fun key ↦ if key.id = id then { key with revoked := true } else key) := by
  refine ⟨_, [], (List.append_nil _).symm, fun key ↦ ?_, fun _ h ↦ by cases h⟩
  split
  · exact ⟨rfl, fun _ ↦ rfl⟩
  · exact .refl key

/-- A new key has an id of its own. -/
theorem freshKeyId_notMem (keys : ApiKeys) : freshKeyId keys ∉ keys.map ApiKey.id := by
  have hle {ids : List ℕ} {id : ℕ} (h : id ∈ ids) : id ≤ ids.foldr max 0 := by
    induction ids with
    | nil => cases h
    | cons n ids ih =>
      rcases List.mem_cons.mp h with rfl | h
      · exact Nat.le_max_left _ _
      · exact (ih h).trans (Nat.le_max_right _ _)
  intro h
  exact absurd (hle h) (Nat.not_succ_le_self _)

/-- What every statement does to the keys. -/
theorem KeyStep.follows (h : KeyStep hash adminKey keys m phase keys' phase') :
    KeysFollow keys keys' := by
  cases h with
  | add => exact .append (freshKeyId_notMem keys)
  | revoke clear id => exact keysFollow_revoke keys id
  | _ => exact .refl keys

omit [DecidableEq ι] in
/-- What the console does to the keys. -/
theorem provision_follows (h : (keyHandlers hash adminKey ι).env key keys = some keys') :
    KeysFollow keys keys' ∧ keys' = keys ++ [key] := by
  obtain ⟨hfree, heq⟩ := Option.ite_none_left_eq_some.mp h
  cases heq
  exact ⟨.append fun hid ↦ hfree (.inr (.inl hid)), rfl⟩

/-! ## Revoked tokens -/

/-- The token is that of a key, and the key is revoked. -/
def TokenRevoked (hash : String → String) (keys : ApiKeys) (token : String) : Prop :=
  ∃ key, (keys.find? fun key ↦ key.keyHash = hash token) = some key ∧ key.revoked = true

theorem resolveApiKey_of_revoked {token : String} (h : TokenRevoked hash keys token) :
    resolveApiKey hash keys (some token) = none := by
  obtain ⟨key, hfind, hrevoked⟩ := h
  rw [resolveApiKey]
  split
  · rw [hfind, Option.filter_some, hrevoked]
    rfl
  · rfl

theorem KeysFollow.tokenRevoked {token : String} (h : KeysFollow keys keys')
    (hrevoked : TokenRevoked hash keys token) : TokenRevoked hash keys' token := by
  obtain ⟨g, new, rfl, hg, -⟩ := h
  obtain ⟨key, hfind, hkey⟩ := hrevoked
  have hhash (key : ApiKey) : (g key).keyHash = key.keyHash := by rw [(hg key).row]
  have hmap : (keys.map g).find? (fun key ↦ key.keyHash = hash token) = some (g key) := by
    rw [List.find?_map]
    simp only [Function.comp_def, hhash, hfind, Option.map_some]
  exact ⟨g key, by rw [List.find?_append, hmap, Option.some_or], (hg key).revoked hkey⟩

/-! ## Answered revocations -/

/-- The token is that of the key with this id. -/
def TokenOf (hash : String → String) (keys : ApiKeys) (token : String) (id : ℕ) : Prop :=
  ∃ key, (keys.find? fun key ↦ key.keyHash = hash token) = some key ∧ key.id = id

/-- The key with this id is stored, and revoked. -/
def IdRevoked (keys : ApiKeys) (id : ℕ) : Prop :=
  id ∈ keys.map ApiKey.id ∧ ∀ key ∈ keys, key.id = id → key.revoked = true

theorem IdRevoked.tokenRevoked {token : String} {id : ℕ} (h : IdRevoked keys id)
    (htoken : TokenOf hash keys token id) : TokenRevoked hash keys token := by
  obtain ⟨key, hfind, hid⟩ := htoken
  exact ⟨key, hfind, h.2 key (List.mem_of_find?_eq_some hfind) hid⟩

theorem KeysFollow.id_mem {id : ℕ} (h : KeysFollow keys keys') (hid : id ∈ keys.map ApiKey.id) :
    id ∈ keys'.map ApiKey.id := by
  obtain ⟨g, new, rfl, hg, -⟩ := h
  obtain ⟨key, hkey, rfl⟩ := List.mem_map.mp hid
  refine List.mem_map.mpr ⟨g key, List.mem_append_left _ (List.mem_map_of_mem hkey), ?_⟩
  rw [(hg key).row]

theorem KeysFollow.idRevoked {id : ℕ} (h : KeysFollow keys keys') (hid : IdRevoked keys id) :
    IdRevoked keys' id := by
  refine ⟨h.id_mem hid.1, fun key' hkey' heq ↦ ?_⟩
  obtain ⟨g, new, rfl, hg, hnew⟩ := h
  rcases List.mem_append.mp hkey' with hkey' | hkey'
  · obtain ⟨key, hkey, rfl⟩ := List.mem_map.mp hkey'
    have hsame : (g key).id = key.id := by rw [(hg key).row]
    exact (hg key).revoked (hid.2 key hkey (hsame.symm.trans heq))
  · exact absurd (heq ▸ hid.1) (hnew key' hkey')

theorem idRevoked_revoke {id : ℕ} (h : id ∈ keys.map ApiKey.id) : IdRevoked
    (keys.map fun key ↦ if key.id = id then { key with revoked := true } else key) id := by
  refine ⟨(keysFollow_revoke keys id).id_mem h, fun key' hkey' hid ↦ ?_⟩
  obtain ⟨key, -, rfl⟩ := List.mem_map.mp hkey'
  split at hid
  · next heq => rw [if_pos heq]
  · next hne => exact absurd hid hne

/-! ## Scopes -/

/-- The scope is granted or, when no admin key is configured, that of a key that was created without
a valid one. -/
def ScopeGiven (adminKey : String) (granted : String → String → Prop) (keys : ApiKeys)
    (orgId projectId : String) : Prop :=
  granted orgId projectId ∨
    adminKey = "" ∧ ∃ key ∈ keys, key.bootstrap = true ∧ key.orgId = orgId ∧
      key.projectId = projectId

theorem KeysFollow.scopeGiven (h : KeysFollow keys keys')
    (hs : ScopeGiven adminKey granted keys orgId projectId) :
    ScopeGiven adminKey granted keys' orgId projectId := by
  refine hs.imp_right ?_
  rintro ⟨hunset, key, hkey, hbootstrap, rfl, rfl⟩
  obtain ⟨g, new, rfl, hg, -⟩ := h
  refine ⟨hunset, g key, List.mem_append_left _ (List.mem_map_of_mem hkey), ?_⟩
  rw [(hg key).row]
  exact ⟨hbootstrap, rfl, rfl⟩

/-- Every key gives access to a scope that is given. -/
def KeysScoped (adminKey : String) (granted : String → String → Prop) (keys : ApiKeys) : Prop :=
  ∀ key ∈ keys, ScopeGiven adminKey granted keys key.orgId key.projectId

/-- The scopes are granted that the console provisions keys for, and those that the admin creates
keys for. -/
def Provisions (adminKey : String) (granted : String → String → Prop)
    (_ : Config ι ApiKeys KeyPhase) : Move ι KeyTurn ApiKey → Prop
  | .env key => granted key.orgId key.projectId
  | .turn _ (.create request) =>
    IsAdmin adminKey request.headers → granted request.orgId request.projectId
  | _ => True

/-- What a request is about to do: a key is created for a scope that is given, or for free, and a
revocation has found its key, and revoked it when it is answered. -/
def KeyPhase.Confined (adminKey : String) (granted : String → String → Prop) (keys : ApiKeys) :
    KeyPhase → Prop
  | .counting _ => adminKey = ""
  | .adding _ orgId projectId false => ScopeGiven adminKey granted keys orgId projectId
  | .adding _ _ _ true => adminKey = ""
  | .revoking id => id ∈ keys.map ApiKey.id
  | .done (.revoked id) => IdRevoked keys id
  | _ => True

theorem KeyPhase.Refused.confined (h : phase.Refused) : phase.Confined adminKey granted keys := by
  cases phase with
  | done response =>
    cases response with
    | revoked id => exact h.elim
    | _ => trivial
  | dead => trivial
  | _ => exact h.elim

theorem KeyPhase.Confined.follows (h : phase.Confined adminKey granted keys)
    (hkeys : KeysFollow keys keys') : phase.Confined adminKey granted keys' := by
  cases phase with
  | counting request => exact h
  | adding request orgId projectId bootstrap =>
    cases bootstrap with
    | false => exact hkeys.scopeGiven h
    | true => exact h
  | revoking id => exact hkeys.id_mem h
  | done response =>
    cases response with
    | revoked id => exact hkeys.idRevoked h
    | _ => trivial
  | _ => trivial

theorem scopeGiven_resolved {token : Option String} (h : KeysScoped adminKey granted keys)
    (hresolve : resolveApiKey hash keys token = some key) :
    ScopeGiven adminKey granted keys key.orgId key.projectId :=
  h key (mem_of_resolveApiKey hresolve)

theorem KeysScoped.append (h : KeysScoped adminKey granted keys)
    (hid : key.id ∉ keys.map ApiKey.id)
    (hkey : ScopeGiven adminKey granted (keys ++ [key]) key.orgId key.projectId) :
    KeysScoped adminKey granted (keys ++ [key]) := by
  intro key' hkey'
  rcases List.mem_append.mp hkey' with hkey' | hkey'
  · exact (KeysFollow.append hid).scopeGiven (h key' hkey')
  · obtain rfl := List.mem_singleton.mp hkey'
    exact hkey

theorem KeysScoped.revoke (h : KeysScoped adminKey granted keys) (id : ℕ) :
    KeysScoped adminKey granted
      (keys.map fun key ↦ if key.id = id then { key with revoked := true } else key) := by
  intro key' hkey'
  obtain ⟨key, hkey, rfl⟩ := List.mem_map.mp hkey'
  have hgiven := (keysFollow_revoke keys id).scopeGiven (h key hkey)
  split
  · exact hgiven
  · exact hgiven

omit [DecidableEq ι] in
/-- A turn keeps the scopes of the keys, and what its request is about to do. -/
theorem KeyStep.confined {i : ι} (h : KeyStep hash adminKey keys m phase keys' phase')
    (hkeys : KeysScoped adminKey granted keys) (hphase : phase.Confined adminKey granted keys)
    (hgranted : Provisions adminKey granted c (.turn i m)) :
    KeysScoped adminKey granted keys' ∧ phase'.Confined adminKey granted keys' := by
  cases h with
  | stop m phase phase' refused => exact ⟨hkeys, refused.confined⟩
  | admin request isAdmin => exact ⟨hkeys, .inl (hgranted isAdmin)⟩
  | caller request key valid => exact ⟨hkeys, scopeGiven_resolved hkeys valid⟩
  | count request unset => exact ⟨hkeys, unset⟩
  | first clear request none => exact ⟨hkeys, hphase⟩
  | add clear request orgId projectId bootstrap =>
    have hid := freshKeyId_notMem keys
    refine ⟨hkeys.append hid ?_, trivial⟩
    cases bootstrap with
    | false => exact (KeysFollow.append hid).scopeGiven hphase
    | true =>
      exact .inr ⟨hphase, _, List.mem_append_right _ (List.mem_singleton.mpr rfl), rfl, rfl, rfl⟩
  | load headers id caller => exact ⟨hkeys, trivial⟩
  | found clear id caller stored => exact ⟨hkeys, stored⟩
  | revoke clear id => exact ⟨hkeys.revoke id, idRevoked_revoke hphase⟩

/-! ## Runs -/

/-- The keys and every request are confined. -/
def Confines (adminKey : String) (granted : String → String → Prop)
    (c : Config ι ApiKeys KeyPhase) : Prop :=
  KeysScoped adminKey granted c.shared ∧ ∀ i, (c.own i).Confined adminKey granted c.shared

theorem confines_runs {moves : List (Move ι KeyTurn ApiKey)} (h : Confines adminKey granted c)
    (hrun : (keyHandlers hash adminKey ι).Runs (Provisions adminKey granted) c moves c') :
    Confines adminKey granted c' := by
  refine hrun.preserves (fun c i m keys phase h hC hturn ↦ ?_) (fun c key keys h hC henv ↦ ?_) h
  · obtain ⟨hkeys, hphases⟩ := h
    have hstep := keyTurn_step hturn
    obtain ⟨hkeys', hphase'⟩ := hstep.confined hkeys (hphases i) hC
    refine ⟨hkeys', (Function.forall_update_iff c.own fun _ x ↦ x.Confined adminKey granted keys).mpr
      ⟨hphase', fun j _ ↦ (hphases j).follows hstep.follows⟩⟩
  · obtain ⟨hkeys, hphases⟩ := h
    obtain ⟨hfollows, rfl⟩ := provision_follows henv
    obtain ⟨hfree, -⟩ := Option.ite_none_left_eq_some.mp henv
    exact ⟨hkeys.append (fun hid ↦ hfree (.inr (.inl hid))) (.inl hC),
      fun i ↦ (hphases i).follows hfollows⟩

theorem tokenRevoked_runs {moves : List (Move ι KeyTurn ApiKey)} {token : String}
    {C : Config ι ApiKeys KeyPhase → Move ι KeyTurn ApiKey → Prop}
    (h : TokenRevoked hash c.shared token)
    (hrun : (keyHandlers hash adminKey ι).Runs C c moves c') :
    TokenRevoked hash c'.shared token := by
  refine hrun.preserves (I := fun c ↦ TokenRevoked hash c.shared token)
    (fun c i m keys phase h _ hturn ↦ ?_) (fun c key keys h _ henv ↦ ?_) h
  · exact (keyTurn_step hturn).follows.tokenRevoked h
  · exact (provision_follows henv).1.tokenRevoked h

/-- **A key gives access to nothing but what was given.**  In every run, every key is for a scope
that the console or the admin has granted or, without an admin key, that of a key that was created
for free.  From any moment on, a token is refused that is revoked by then, or whose key some request
has revoked. -/
theorem keys_scoped {moves moves' : List (Move ι KeyTurn ApiKey)} (hown : ∀ i, c₀.own i = .ahead)
    (hkeys : ∀ key ∈ c₀.shared, granted key.orgId key.projectId)
    (hrun : (keyHandlers hash adminKey ι).Runs (Provisions adminKey granted) c₀ moves c)
    (hlater : (keyHandlers hash adminKey ι).Runs (Provisions adminKey granted) c moves' c') :
    KeysScoped adminKey granted c'.shared ∧
      (∀ token, TokenRevoked hash c.shared token →
        resolveApiKey hash c'.shared (some token) = none) ∧
      ∀ i id token, c.own i = .done (.revoked id) → TokenOf hash c.shared token id →
        resolveApiKey hash c'.shared (some token) = none := by
  have hstart : Confines adminKey granted c₀ :=
    ⟨fun key hkey ↦ .inl (hkeys key hkey), fun i ↦ by rw [hown]; trivial⟩
  have hthen := confines_runs hstart hrun
  refine ⟨(confines_runs hthen hlater).1, fun token htoken ↦ ?_, fun i id token hdone htoken ↦ ?_⟩
  · exact resolveApiKey_of_revoked (tokenRevoked_runs htoken hlater)
  · have hrevoked : IdRevoked c.shared id := by
      have hconfined := hthen.2 i
      rw [hdone] at hconfined
      exact hconfined
    exact resolveApiKey_of_revoked (tokenRevoked_runs (hrevoked.tokenRevoked htoken) hlater)

end

/-! ## A sample -/

namespace Sample

/-- Two keys of one project, one of them revoked. -/
def twoKeys : Config Bool ApiKeys KeyPhase :=
  ⟨[⟨0, "hk_a", "hk_a", "org", "project", none, false, false⟩,
    ⟨1, "hk_b", "hk_b", "org", "project", none, true, false⟩], fun _ ↦ .ahead⟩

/-- The valid one creates a third, while the console provisions one of another project; the third
one revokes the first. -/
def thirdKey : List (Move Bool KeyTurn ApiKey) :=
  [.turn false (.create ⟨[("authorization", "Bearer hk_a")], "org", "project", none⟩),
    .env ⟨2, "hk_c", "hk_c", "org", "other", none, false, false⟩, .turn false (.proceed "hk_d"),
    .turn true (.revoke [("authorization", "Bearer hk_d")] 0), .turn true (.proceed ""),
    .turn true (.proceed "")]

/-- The keys afterwards. -/
def fourKeys : ApiKeys :=
  [⟨0, "hk_a", "hk_a", "org", "project", none, true, false⟩,
    ⟨1, "hk_b", "hk_b", "org", "project", none, true, false⟩,
    ⟨2, "hk_c", "hk_c", "org", "other", none, false, false⟩,
    ⟨3, "hk_d", "hk_d", "org", "project", none, false, false⟩]

/-- Then the console provisions one more. -/
def fourthKey : List (Move Bool KeyTurn ApiKey) :=
  [.env ⟨7, "hk_e", "hk_e", "org", "other", none, false, false⟩]

/-- The scopes the console provisions. -/
def granted (orgId projectId : String) : Prop :=
  orgId = "org" ∧ (projectId = "project" ∨ projectId = "other")

instance (orgId projectId : String) : Decidable (granted orgId projectId) :=
  inferInstanceAs (Decidable (_ ∧ _))

instance (adminKey : String) (c : Config Bool ApiKeys KeyPhase) :
    ∀ x, Decidable (Provisions adminKey granted c x)
  | .env key => inferInstanceAs (Decidable (granted key.orgId key.projectId))
  | .turn _ (.create request) =>
    inferInstanceAs (Decidable (IsAdmin adminKey request.headers → granted _ _))
  | .turn _ (.revoke _ _) | .turn _ (.proceed _) | .turn _ .die => isTrue trivial

end Sample

/-- The token of the first key was valid, and is refused after its revocation. -/
theorem keys_scoped_third :
    (resolveApiKey id Sample.twoKeys.shared (some "hk_a")).isSome ∧
    ∃ c, (keyHandlers id "" Bool).run Sample.twoKeys Sample.thirdKey = some c ∧
      ∃ c', (keyHandlers id "" Bool).run c Sample.fourthKey = some c' ∧
      KeysScoped "" Sample.granted c'.shared ∧
      resolveApiKey id c'.shared (some "hk_b") = none ∧
      resolveApiKey id c'.shared (some "hk_a") = none := by
  have hrun : ((keyHandlers id "" Bool).run Sample.twoKeys Sample.thirdKey).map
      (fun c ↦ (c.shared, c.own true)) = some (Sample.fourKeys, .done (.revoked 0)) := by
    decide +kernel
  obtain ⟨⟨keys, own⟩, hc, heq⟩ := Option.map_eq_some_iff.mp hrun
  obtain ⟨rfl, hdone⟩ := Prod.mk.inj heq
  have hgranted : ∀ key ∈ Sample.twoKeys.shared, Sample.granted key.orgId key.projectId := by decide
  obtain ⟨c', hc'⟩ : ∃ c', (keyHandlers id "" Bool).run ⟨Sample.fourKeys, own⟩ Sample.fourthKey =
      some c' := ⟨_, rfl⟩
  obtain ⟨hscoped, hrevoked, hanswered⟩ := keys_scoped (fun _ ↦ rfl) hgranted
    (Handlers.runs_of_allMeet hc (by decide +kernel))
    (Handlers.runs_of_allMeet hc' ⟨⟨rfl, .inr rfl⟩, fun _ _ ↦ trivial⟩)
  refine ⟨by decide +kernel, _, hc, c', hc', hscoped, ?_, ?_⟩
  · exact hrevoked "hk_b" ⟨_, rfl, rfl⟩
  · exact hanswered true 0 "hk_a" hdone ⟨_, rfl, rfl⟩

end Haki
