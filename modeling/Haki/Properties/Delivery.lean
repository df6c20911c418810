import Haki.Api.DeviceAuth
import Mathlib.Data.Fintype.Basic

/-!
# Delivering the key of a device session

A poll reads a session and deletes it with two commands, and an approval reads
it and writes it back with two.  The key is delivered once as long as no other
poll reads an approved session before it is deleted, and no approval writes a
session back that a poll has deleted.
-/

namespace Haki

open Control

/-! ## Roles -/

/-- What a handler does about one device code. -/
inductive DeviceRole where
  | idle
  /-- It creates the session. -/
  | opening
  /-- It has read the session, to approve it. -/
  | approving
  /-- It has read the approved session, to delete it. -/
  | consuming
  /-- It has answered with the key. -/
  | delivered
deriving DecidableEq, Repr

/-- A poll that has the key. -/
def DeviceRole.Takes (r : DeviceRole) : Prop := r = .consuming ∨ r = .delivered

/-- What a phase is about one device code. -/
def DevicePhase.role (code : String) : DevicePhase → DeviceRole
  | .claiming d _ | .creating d _ => if d = code then .opening else .idle
  | .approving _ d _ => if d = code then .approving else .idle
  | .consuming d _ => if d = code then .consuming else .idle
  | .done (.polled d (.approved _)) => if d = code then .delivered else .idle
  | _ => .idle

/-- What a turn does about one device code. -/
inductive RoleEffect (code : String) (s : DeviceStore) :
    DeviceTurn → DeviceRole → DeviceStore → DeviceRole → Prop
  /-- Nothing, or a session is deleted that was not approved in time. -/
  | idle (m : DeviceTurn) (s' : DeviceStore) (role role' : DeviceRole)
    (device : s'.devices code = s.devices code ∨ s'.devices code = none)
    (issued : code ∈ s'.issued ↔ code ∈ s.issued) (stay : role' = role ∨ role' = .idle) :
    RoleEffect code s m role s' role'
  | draw (s' : DeviceStore) (fresh : code ∉ s.issued) (issued : code ∈ s'.issued)
    (device : s'.devices = s.devices) :
    RoleEffect code s (.start code) .idle s' .opening
  | create (s' : DeviceStore) (issued : s'.issued = s.issued) :
    RoleEffect code s .proceed .opening s' .idle
  | take (entry : RedisEntry DeviceSession) (found : s.devices code = some entry)
    (approved : entry.value.credentials.isSome) :
    RoleEffect code s (.poll code) .idle s .consuming
  | deliver (s' : DeviceStore) (device : s'.devices code = none) (issued : s'.issued = s.issued) :
    RoleEffect code s .proceed .consuming s' .delivered
  | read (entry : RedisEntry DeviceSession) (found : s.devices code = some entry) :
    RoleEffect code s .proceed .idle s .approving
  | approve (s' : DeviceStore) (issued : s'.issued = s.issued) :
    RoleEffect code s .proceed .approving s' .idle

namespace DeviceStore

variable {s : DeviceStore} {d code : String} {entry : Option (RedisEntry DeviceSession)}

theorem setDevice_self : (s.setDevice d entry).devices d = entry := Function.update_self ..

theorem setDevice_of_ne (h : code ≠ d) :
    (s.setDevice d entry).devices code = s.devices code := Function.update_of_ne h ..

end DeviceStore

/-- The role of a handler in what it does. -/
theorem DeviceEffect.role {normalize : String → String} {s s' : DeviceStore} {m : DeviceTurn}
    {phase phase' : DevicePhase} (h : DeviceEffect normalize s m phase s' phase')
    (code : String) : RoleEffect code s m (phase.role code) s' (phase'.role code) := by
  have hsame {d : String} {entry : Option (RedisEntry DeviceSession)} (hd : d ≠ code) :
      (s.setDevice d entry).devices code = s.devices code :=
    DeviceStore.setDevice_of_ne hd.symm
  cases h with
  | draw d fresh =>
    by_cases hd : d = code
    · subst hd
      simp only [DevicePhase.role, if_pos]
      exact .draw _ fresh List.mem_cons_self rfl
    · refine .idle _ _ _ _ (.inl rfl) ?_ (.inr (if_neg hd))
      simp [Ne.symm hd]
  | claim u d left free => exact .idle _ _ _ _ (.inl rfl) Iff.rfl (.inl rfl)
  | retry u d left left' => exact .idle _ _ _ _ (.inl rfl) Iff.rfl (.inl rfl)
  | create d u =>
    by_cases hd : d = code
    · subst hd
      simp only [DevicePhase.role, if_pos]
      exact .create _ rfl
    · exact .idle _ _ _ _ (.inl (hsame hd)) Iff.rfl (.inr rfl)
  | take d entry credentials found approved =>
    by_cases hd : d = code
    · subst hd
      simp only [DevicePhase.role, if_pos]
      exact .take entry found (by rw [approved]; rfl)
    · exact .idle _ _ _ _ (.inl rfl) Iff.rfl (.inr (if_neg hd))
  | expire d =>
    refine .idle _ _ _ _ ?_ Iff.rfl (.inr rfl)
    by_cases hd : d = code
    · exact .inr (hd ▸ DeviceStore.setDevice_self)
    · exact .inl (hsame hd)
  | consume d credentials =>
    by_cases hd : d = code
    · subst hd
      simp only [DevicePhase.role, if_pos]
      exact .deliver _ DeviceStore.setDevice_self rfl
    · exact .idle _ _ _ _ (.inl (hsame hd)) Iff.rfl (.inr (if_neg hd))
  | recount approver entry phase found next =>
    refine .idle _ _ _ _ (.inl rfl) Iff.rfl (.inr ?_)
    rcases next with rfl | rfl <;> rfl
  | read request d entry found =>
    by_cases hd : d = code
    · subst hd
      simp only [DevicePhase.role, if_pos]
      exact .read entry found
    · exact .idle _ _ _ _ (.inl rfl) Iff.rfl (.inr (if_neg hd))
  | approve request d session entry =>
    by_cases hd : d = code
    · subst hd
      simp only [DevicePhase.role, if_pos]
      exact .approve _ rfl
    · exact .idle _ _ _ _ (.inl (hsame hd)) Iff.rfl (.inr rfl)
  | giveUp | miss | late | wait | limit | check | guess | find | count | limitTime | gone | die =>
    exact .idle _ _ _ _ (.inl rfl) Iff.rfl (.inr rfl)

/-! ## Roles side by side -/

section Roles

variable {ι : Type} [DecidableEq ι] {code : String} {s s' : DeviceStore} {m : DeviceTurn}
  {roles : ι → DeviceRole} {role : DeviceRole} {i j : ι}

/-- What holds of the session of one device code, and of the roles of the handlers. -/
structure OneDelivery (code : String) (s : DeviceStore) (roles : ι → DeviceRole) : Prop where
  undrawn : code ∉ s.issued → s.devices code = none ∧ ∀ j, roles j = .idle
  opening : ∀ j, roles j = .opening → s.devices code = none ∧ ∀ k, k ≠ j → roles k = .idle
  taking : AtMostOne DeviceRole.Takes roles
  delivered : ∀ j, roles j = .delivered → s.devices code = none

omit [DecidableEq ι] in
theorem OneDelivery.issued (h : OneDelivery code s roles) (hrole : roles j ≠ .idle) :
    code ∈ s.issued :=
  by_contra fun hnew ↦ hrole ((h.undrawn hnew).2 j)

omit [DecidableEq ι] in
theorem OneDelivery.present (h : OneDelivery code s roles) (hdevice : s.devices code ≠ none) :
    code ∈ s.issued :=
  by_contra fun hnew ↦ hdevice (h.undrawn hnew).1

/-- A turn in a role of its own. -/
private theorem update_role {r : DeviceRole} {Q : ι → Prop} (hi : role = r → Q i)
    (hj : ∀ j, j ≠ i → roles j = r → Q j) : ∀ j, Function.update roles i role j = r → Q j :=
  (Function.forall_update_iff roles fun j x ↦ x = r → Q j).mpr ⟨hi, hj⟩

/-- A handler that is in no role is in none of the other roles. -/
private theorem update_idle (hj : ∀ j, j ≠ i → roles j = .idle) :
    ∀ k, k ≠ i → Function.update roles i role k = .idle :=
  fun k hk ↦ (Function.update_of_ne hk ..).trans (hj k hk)

/-- A handler that stays in its role, or leaves it. -/
theorem OneDelivery.idle (h : OneDelivery code s roles)
    (device : s'.devices code = s.devices code ∨ s'.devices code = none)
    (issued : code ∈ s'.issued ↔ code ∈ s.issued) (stay : role = roles i ∨ role = .idle) :
    OneDelivery code s' (Function.update roles i role) := by
  have hdevice (hnone : s.devices code = none) : s'.devices code = none :=
    device.elim (·.trans hnone) id
  have hstay {r : DeviceRole} (hr : role = r) (hne : r ≠ .idle) : roles i = r :=
    stay.elim (fun heq ↦ heq.symm.trans hr) fun heq ↦ absurd (hr.symm.trans heq) hne
  refine ⟨fun hnew ↦ ?_, update_role (fun hr ↦ ?_) fun j hj hr ↦ ?_, h.taking.stay fun ht ↦ ?_,
    update_role (fun hr ↦ ?_) fun j _ hr ↦ hdevice (h.delivered j hr)⟩
  · obtain ⟨hnone, hidle⟩ := h.undrawn (issued.not.mp hnew)
    refine ⟨hdevice hnone, (Function.forall_update_iff roles fun _ x ↦ x = .idle).mpr
      ⟨stay.elim (·.trans (hidle i)) id, fun j _ ↦ hidle j⟩⟩
  · obtain ⟨hnone, hidle⟩ := h.opening i (hstay hr (by decide))
    exact ⟨hdevice hnone, update_idle hidle⟩
  · obtain ⟨hnone, hidle⟩ := h.opening j hr
    refine ⟨hdevice hnone, fun k hk ↦ ?_⟩
    by_cases hki : k = i
    · subst hki
      rw [Function.update_self]
      exact stay.elim (·.trans (hidle k hk)) id
    · rw [Function.update_of_ne hki]
      exact hidle k hk
  · rcases ht with ht | ht
    · exact .inl (hstay ht (by decide))
    · exact .inr (hstay ht (by decide))
  · exact hdevice (h.delivered i (hstay hr (by decide)))

/-- A turn that the roles of the others allow. -/
theorem OneDelivery.turn (h : OneDelivery code s roles)
    (hturn : RoleEffect code s m (roles i) s' role)
    (hpoll : m = .poll code → (∃ entry ∈ s.devices code, entry.value.credentials.isSome) →
      ∀ j, roles j ≠ .consuming)
    (hwrite : roles i = .approving → role = .idle → m = .proceed → ∀ j, roles j ≠ .delivered) :
    OneDelivery code s' (Function.update roles i role) := by
  -- a handler that opens the session leaves no room for others
  have hopening (hi : roles i ≠ .idle) (hne : roles i ≠ .opening) (j : ι) :
      roles j ≠ .opening :=
    fun hj ↦ hi ((h.opening j hj).2 i (by rintro rfl; exact hne hj))
  have hfound {entry : RedisEntry DeviceSession} (hentry : s.devices code = some entry) {j : ι} :
      roles j ≠ .opening ∧ roles j ≠ .delivered :=
    ⟨fun hj ↦ by simp [(h.opening j hj).1] at hentry, fun hj ↦ by simp [h.delivered j hj] at hentry⟩
  generalize hrole : roles i = own at hturn
  cases hturn with
  | idle _ _ _ _ device issued stay => exact h.idle device issued (hrole ▸ stay)
  | draw _ fresh issued device =>
    obtain ⟨hnone, hidle⟩ := h.undrawn fresh
    have hnone' : s'.devices code = none := by rw [device, hnone]
    refine ⟨fun hnew ↦ absurd issued hnew, update_role (fun _ ↦ ?_) fun j _ hj ↦ ?_,
      h.taking.enter fun ht ↦ ?_, fun _ _ ↦ hnone'⟩
    · exact ⟨hnone', update_idle fun j _ ↦ hidle j⟩
    · exact absurd (hj.symm.trans (hidle j)) (by decide)
    · rcases ht with ht | ht <;> cases ht
  | create _ issued =>
    obtain ⟨-, hidle⟩ := h.opening i hrole
    have hdrawn : code ∈ s'.issued := issued ▸ h.issued (j := i) (by rw [hrole]; decide)
    refine ⟨fun hnew ↦ absurd hdrawn hnew, update_role (by rintro ⟨⟩) fun j hj hr ↦ ?_,
      h.taking.enter fun ht ↦ ?_, update_role (by rintro ⟨⟩) fun j hj hr ↦ ?_⟩
    · exact absurd (hr.symm.trans (hidle j hj)) (by decide)
    · rcases ht with ht | ht <;> cases ht
    · exact absurd (hr.symm.trans (hidle j hj)) (by decide)
  | take entry found approved =>
    have halone := hpoll rfl ⟨entry, found, approved⟩
    refine ⟨fun hnew ↦ absurd (h.present (by simp [found])) hnew,
      update_role (by rintro ⟨⟩) fun j _ hr ↦ absurd hr (hfound found).1,
      h.taking.enter fun _ j _ ht ↦ ?_,
      update_role (by rintro ⟨⟩) fun j _ hr ↦ absurd hr (hfound found).2⟩
    exact ht.elim (halone j) (hfound found).2
  | deliver _ device issued =>
    have hdrawn : code ∈ s'.issued := issued ▸ h.issued (j := i) (by rw [hrole]; decide)
    refine ⟨fun hnew ↦ absurd hdrawn hnew, update_role (by rintro ⟨⟩) fun j _ hr ↦ ?_,
      h.taking.stay fun _ ↦ .inl hrole, fun _ _ ↦ device⟩
    exact absurd hr (hopening (by rw [hrole]; decide) (by rw [hrole]; decide) j)
  | read entry found =>
    refine ⟨fun hnew ↦ absurd (h.present (by simp [found])) hnew,
      update_role (by rintro ⟨⟩) fun j _ hr ↦ absurd hr (hfound found).1,
      h.taking.enter fun ht ↦ ?_,
      update_role (by rintro ⟨⟩) fun j _ hr ↦ absurd hr (hfound found).2⟩
    rcases ht with ht | ht <;> cases ht
  | approve _ issued =>
    have hdrawn : code ∈ s'.issued := issued ▸ h.issued (j := i) (by rw [hrole]; decide)
    refine ⟨fun hnew ↦ absurd hdrawn hnew, update_role (by rintro ⟨⟩) fun j _ hr ↦ ?_,
      h.taking.enter fun ht ↦ ?_,
      update_role (by rintro ⟨⟩) fun j _ hr ↦ absurd hr (hwrite hrole rfl rfl j)⟩
    · exact absurd hr (hopening (by rw [hrole]; decide) (by rw [hrole]; decide) j)
    · rcases ht with ht | ht <;> cases ht

end Roles

/-! ## Runs -/

section Runs

variable {normalize : String → String} {ι : Type} [DecidableEq ι]
  {c c₀ c' : Config ι DeviceStore DevicePhase} {code : String}

/-- The session a handler writes back next, approved. -/
def DevicePhase.writesBack : DevicePhase → Option String
  | .approving _ d _ => some d
  | _ => none

theorem DevicePhase.writesBack_of_role {phase : DevicePhase} (h : phase.role code = .approving) :
    phase.writesBack = some code := by
  unfold DevicePhase.role at h
  split at h <;> try cases h
  all_goals
    split at h
    next hd =>
      subst hd
      first
        | rfl
        | cases h
    next => cases h

/-- A poll reads an approved session only while no other one is about to delete it, and an approval
writes back a session that no poll has consumed. -/
def ConsumesAlone (c : Config ι DeviceStore DevicePhase) :
    Move ι DeviceTurn (RedisKey ⊕ Timestamp) → Prop
  | .turn _ (.poll code) => (∃ entry ∈ c.shared.devices code, entry.value.credentials.isSome) →
    ∀ j, (c.own j).role code ≠ .consuming
  | .turn i .proceed => ∀ code ∈ (c.own i).writesBack, ∀ j, (c.own j).role code ≠ .delivered
  | _ => True

instance [Fintype ι] : ∀ (c : Config ι DeviceStore DevicePhase) x, Decidable (ConsumesAlone c x)
  | c, .turn _ (.poll code) =>
    inferInstanceAs (Decidable ((∃ entry ∈ c.shared.devices code, _) → ∀ _, _))
  | c, .turn i .proceed => inferInstanceAs (Decidable (∀ code ∈ (c.own i).writesBack, _))
  | _, .turn _ (.start _) | _, .turn _ (.claim _) | _, .turn _ (.approve _) | _, .turn _ .die
  | _, .env _ => isTrue trivial

/-- A poll that has answered with the key. -/
def DevicePhase.Delivered (code : String) (phase : DevicePhase) : Prop :=
  ∃ credentials, phase = .done (.polled code (.approved credentials))

theorem DevicePhase.role_of_delivered {phase : DevicePhase} (h : phase.Delivered code) :
    phase.role code = .delivered := by
  obtain ⟨credentials, rfl⟩ := h
  exact if_pos rfl

/-- No handler has begun, and there is no session whose code was not drawn. -/
structure Undisturbed (c : Config ι DeviceStore DevicePhase) : Prop where
  own : ∀ i, c.own i = .ahead
  devices : ∀ code, code ∉ c.shared.issued → c.shared.devices code = none

/-- What became of the sessions. -/
structure DeliveredOnce (normalize : String → String) (c : Config ι DeviceStore DevicePhase) :
    Prop where
  /-- No two polls have answered with the key of a session. -/
  once : ∀ code, AtMostOne (DevicePhase.Delivered code) c.own
  /-- A session whose key was answered with is gone. -/
  gone : ∀ code i, (c.own i).Delivered code → c.shared.devices code = none
  /-- A poll does not find it any more. -/
  later : ∀ code i, (c.own i).Delivered code → ∀ s phase,
    c.shared.turn normalize (.poll code) .ahead = some (s, phase) →
      phase = .done (.polled code .notFound)

omit [DecidableEq ι] in
theorem OneDelivery.expire {key : RedisKey} {s s' : DeviceStore} {roles : ι → DeviceRole}
    (h : OneDelivery code s roles) (hexpire : s.expire key = some s') :
    OneDelivery code s' roles := by
  have hdevice : (s'.devices code = s.devices code ∨ s'.devices code = none) ∧
      s'.issued = s.issued := by
    cases key with
    | userCode u =>
      obtain ⟨-, heq⟩ := Option.ite_none_right_eq_some.mp hexpire
      cases heq
      exact ⟨.inl rfl, rfl⟩
    | device d =>
      obtain ⟨-, heq⟩ := Option.ite_none_right_eq_some.mp hexpire
      cases heq
      refine ⟨?_, rfl⟩
      by_cases hd : code = d
      · exact .inr (hd ▸ DeviceStore.setDevice_self)
      · exact .inl (DeviceStore.setDevice_of_ne hd)
    | attempts a =>
      obtain ⟨-, heq⟩ := Option.ite_none_right_eq_some.mp hexpire
      cases heq
      exact ⟨.inl rfl, rfl⟩
  obtain ⟨hdevice, hissued⟩ := hdevice
  have hnone (hnone : s.devices code = none) : s'.devices code = none :=
    hdevice.elim (·.trans hnone) id
  exact ⟨fun hnew ↦ (h.undrawn (hissued ▸ hnew)).imp_left hnone,
    fun j hj ↦ (h.opening j hj).imp_left hnone, h.taking, fun j hj ↦ hnone (h.delivered j hj)⟩

/-- Runs keep what holds of the session of a device code. -/
theorem oneDelivery_runs {moves : List (Move ι DeviceTurn (RedisKey ⊕ Timestamp))}
    (h₀ : Undisturbed c₀)
    (hrun : (DeviceStore.handlers normalize ι).Runs ConsumesAlone c₀ moves c) (code : String) :
    OneDelivery code c.shared (DevicePhase.role code ∘ c.own) := by
  refine hrun.preserves (I := fun c ↦ OneDelivery code c.shared (DevicePhase.role code ∘ c.own))
    (fun c i m s phase h hC hturn ↦ ?_) (fun c e s h _ henv ↦ ?_) ?_
  · rw [Function.comp_update]
    refine h.turn ((DeviceStore.turn_effect hturn).role code) ?_ ?_
    · rintro rfl hfound j
      exact hC hfound j
    · rintro hrole - rfl j
      exact hC code (DevicePhase.writesBack_of_role hrole) j
  · rcases e with key | now
    · exact h.expire henv
    · obtain ⟨-, heq⟩ := Option.ite_none_right_eq_some.mp henv
      cases heq
      exact ⟨h.undrawn, h.opening, h.taking, h.delivered⟩
  · have hidle (j : ι) : (DevicePhase.role code ∘ c₀.own) j = .idle := by
      rw [Function.comp_apply, h₀.own j]
      rfl
    refine ⟨fun hnew ↦ ⟨h₀.devices code hnew, hidle⟩, fun j hj ↦ ?_, fun j _ hj ↦ ?_,
      fun j hj ↦ ?_⟩
    · exact absurd (hj.symm.trans (hidle j)) (by decide)
    · rw [DeviceRole.Takes, hidle] at hj
      rcases hj with hj | hj <;> cases hj
    · exact absurd (hj.symm.trans (hidle j)) (by decide)

/-- **A key is delivered at most once** in every run whose polls and approvals do not overlap. -/
theorem delivered_once {moves : List (Move ι DeviceTurn (RedisKey ⊕ Timestamp))}
    (h₀ : Undisturbed c₀)
    (hrun : (DeviceStore.handlers normalize ι).Runs ConsumesAlone c₀ moves c) :
    DeliveredOnce normalize c := by
  have hgone (code : String) (i : ι) (hi : (c.own i).Delivered code) :
      c.shared.devices code = none :=
    (oneDelivery_runs h₀ hrun code).delivered i (DevicePhase.role_of_delivered hi)
  refine ⟨fun code i j hi hj ↦ ?_, hgone, fun code i hi s phase hturn ↦ ?_⟩
  · exact (oneDelivery_runs h₀ hrun code).taking i j (.inr (DevicePhase.role_of_delivered hi))
      (.inr (DevicePhase.role_of_delivered hj))
  · cases hturn
    rw [DeviceStore.poll, hgone code i hi]

end Runs

/-! ## Samples -/

namespace Sample

/-- The session of the code `"device"` is approved. -/
def approvedDevice : Config (Fin 3) DeviceStore DevicePhase where
  shared :=
    { userCodes u := if u = "ABCD-EFGH" then some ⟨"device", true⟩ else none
      devices d := if d = "device" then
        some ⟨⟨"ABCD-EFGH", 0, some ⟨"key", "org", "project"⟩⟩, true⟩ else none
      attempts _ := none
      clock := 0
      issued := ["device"]
      wrong _ := 0 }
  own _ := .ahead

/-- A request of a handler. -/
def asks (i : Fin 3) (m : DeviceTurn) : Move (Fin 3) DeviceTurn (RedisKey ⊕ Timestamp) :=
  .turn i m

/-- An approval of the session. -/
def approval : DeviceTurn := .approve ⟨"ABCD-EFGH", none, ⟨"other", "org", "project"⟩⟩

/-- Two polls one after the other. -/
def pollsInTurn : List (Move (Fin 3) DeviceTurn (RedisKey ⊕ Timestamp)) :=
  [asks 0 (.poll "device"), asks 0 .proceed, asks 1 (.poll "device")]

/-- Two polls that both read the session before one deletes it. -/
def pollsAtOnce : List (Move (Fin 3) DeviceTurn (RedisKey ⊕ Timestamp)) :=
  [asks 0 (.poll "device"), asks 1 (.poll "device"), asks 0 .proceed, asks 1 .proceed]

/-- A poll between the commands of a second approval, and a poll after it. -/
def pollInApproval : List (Move (Fin 3) DeviceTurn (RedisKey ⊕ Timestamp)) :=
  [asks 2 approval, asks 2 .proceed, asks 2 .proceed, asks 0 (.poll "device"), asks 0 .proceed,
    asks 2 .proceed, asks 1 (.poll "device"), asks 1 .proceed]

end Sample

theorem undisturbed_sample : Undisturbed Sample.approvedDevice :=
  ⟨fun _ ↦ rfl, fun code hnew ↦ if_neg (by simpa [Sample.approvedDevice] using hnew)⟩

/-- Two polls one after the other deliver one key. -/
theorem delivered_once_sample : ∃ c, (DeviceStore.handlers id (Fin 3)).run Sample.approvedDevice
    Sample.pollsInTurn = some c ∧ DeliveredOnce id c := by
  have hrun : ((DeviceStore.handlers id (Fin 3)).run Sample.approvedDevice
    Sample.pollsInTurn).isSome := by decide
  obtain ⟨c, hc⟩ := Option.isSome_iff_exists.mp hrun
  exact ⟨c, hc, delivered_once undisturbed_sample (Handlers.runs_of_allMeet hc (by decide))⟩

/-- Overlapping polls deliver a key twice, and an approval that overlaps a poll brings the session
back. -/
theorem delivered_twice :
    (∃ c, (DeviceStore.handlers id (Fin 3)).run Sample.approvedDevice Sample.pollsAtOnce = some c ∧
      ¬ AtMostOne (DevicePhase.Delivered "device") c.own) ∧
    ∃ c, (DeviceStore.handlers id (Fin 3)).run Sample.approvedDevice Sample.pollInApproval =
      some c ∧ ¬ AtMostOne (DevicePhase.Delivered "device") c.own := by
  refine ⟨⟨_, rfl, fun h ↦ ?_⟩, ⟨_, rfl, fun h ↦ ?_⟩⟩
  · exact absurd (h 0 1 ⟨_, rfl⟩ ⟨_, rfl⟩) (by decide)
  · exact absurd (h 0 1 ⟨_, rfl⟩ ⟨_, rfl⟩) (by decide)

end Haki
