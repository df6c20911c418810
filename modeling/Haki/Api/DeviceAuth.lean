import Haki.Control.Interleave
import Haki.Ledger.Capture

/-!
# Device codes

`device_start`, `device_poll` and `device_approve`, one Redis command after the
other (`app.api.routes.cli_auth`).  A key with an expiry may be gone at any
point, and a handler may die at any point.  Commands of other requests come in
between.

The rate limit of `device_start` and the service key of `device_approve` are
left out: a request they refuse touches nothing here.
-/

namespace Haki

open Control

/-! ## Values -/

/-- What an approval hands to the terminal. -/
structure DeviceCredentials where
  apiKey : String
  orgId : String
  projectId : String
deriving DecidableEq, Repr

/-- The session behind a device code: approved once it has credentials. -/
structure DeviceSession where
  userCode : String
  expiresAt : Timestamp
  credentials : Option DeviceCredentials
deriving DecidableEq, Repr

structure ApproveRequest where
  userCode : String
  approverRef : Option String
  credentials : DeviceCredentials
deriving DecidableEq, Repr

/-- The approver whose wrong codes are counted. -/
def ApproveRequest.approver (request : ApproveRequest) : String :=
  (orKey request.approverRef).getD "anonymous"

/-- The answer to a poll. -/
inductive PollResponse where
  | notFound
  | pending
  | expired
  | approved (credentials : DeviceCredentials)
deriving DecidableEq, Repr

/-- The answer to a request. -/
inductive DeviceResponse where
  | started (deviceCode userCode : String)
  /-- `internal_error`: no user code could be claimed. -/
  | unallocated
  | polled (deviceCode : String) (response : PollResponse)
  | rateLimited
  | userCodeNotFound
  | userCodeExpired
  | ok
deriving DecidableEq, Repr

/-! ## Redis -/

/-- A value, and whether it has an expiry. -/
structure RedisEntry (α : Type) where
  value : α
  expires : Bool
deriving DecidableEq, Repr

/-- The keys of the device flow. -/
inductive RedisKey where
  | userCode (userCode : String)
  | device (deviceCode : String)
  | attempts (approver : String)
deriving DecidableEq, Repr

/-- What the commands read and write. -/
structure DeviceStore where
  userCodes : String → Option (RedisEntry String)
  devices : String → Option (RedisEntry DeviceSession)
  attempts : String → Option (RedisEntry Nat)
  clock : Timestamp
  /-- The device codes drawn so far: `token_hex` does not draw one twice. -/
  issued : List String
  /-- The wrong codes an approver has looked up since the counter last expired. -/
  wrong : String → Nat

/-- `EXPIRES_IN`. -/
def expiresIn : Timestamp := 600 * 1000000

/-- `_APPROVE_ATTEMPTS_MAX`. -/
def approveAttemptsMax : Nat := 10

namespace DeviceStore

variable (s : DeviceStore)

/-- `SET` or `DEL` of a device key. -/
def setDevice (deviceCode : String) (entry : Option (RedisEntry DeviceSession)) : DeviceStore :=
  { s with devices := Function.update s.devices deviceCode entry }

/-- `SET … NX EX` of a user code that is free. -/
def claim (userCode deviceCode : String) : DeviceStore :=
  { s with userCodes := Function.update s.userCodes userCode (some ⟨deviceCode, true⟩) }

/-- A write to the counter of an approver. -/
def setAttempts (approver : String) (entry : Option (RedisEntry Nat)) : DeviceStore :=
  { s with attempts := Function.update s.attempts approver entry }

/-- A wrong code is looked up. -/
def guess (approver : String) : DeviceStore :=
  { s with wrong := Function.update s.wrong approver (s.wrong approver + 1) }

/-- The number of wrong codes counted for an approver. -/
def count (approver : String) : Nat := (s.attempts approver).elim 0 RedisEntry.value

/-- A key with an expiry is gone. -/
def expire : RedisKey → Option DeviceStore
  | .userCode u => if (s.userCodes u).any RedisEntry.expires then
      some { s with userCodes := Function.update s.userCodes u none } else none
  | .device d => if (s.devices d).any RedisEntry.expires then some (s.setDevice d none) else none
  | .attempts a => if (s.attempts a).any RedisEntry.expires then
      some { s.setAttempts a none with wrong := Function.update s.wrong a 0 } else none

end DeviceStore

/-! ## Handlers -/

/-- Where a handler stands: the command it sends next. -/
inductive DevicePhase where
  | ahead
  /-- `SET NX` of a user code, of which some tries are left. -/
  | claiming (deviceCode : String) (left : Nat)
  /-- `SET` of the new session. -/
  | creating (deviceCode userCode : String)
  /-- `DEL` of a session past its time. -/
  | expiring (deviceCode : String)
  /-- `DEL` of an approved session. -/
  | consuming (deviceCode : String) (credentials : DeviceCredentials)
  /-- `GET` of the user code. -/
  | checked (request : ApproveRequest)
  /-- `INCR` for a wrong code. -/
  | guessed (approver : String)
  /-- `EXPIRE` of a new counter. -/
  | counted (approver : String)
  /-- `GET` of the session. -/
  | found (request : ApproveRequest) (deviceCode : String)
  /-- `SET … KEEPTTL` of the approved session. -/
  | approving (request : ApproveRequest) (deviceCode : String) (session : DeviceSession)
  | done (response : DeviceResponse)
  | dead
deriving DecidableEq, Repr

/-- A turn of a handler. -/
inductive DeviceTurn where
  /-- `device_start` draws a device code. -/
  | start (deviceCode : String)
  /-- `device_start` tries a user code. -/
  | claim (userCode : String)
  /-- `device_poll`, up to its `GET`. -/
  | poll (deviceCode : String)
  /-- `device_approve`, up to the `GET` of the counter. -/
  | approve (request : ApproveRequest)
  /-- The next command. -/
  | proceed
  | die
deriving DecidableEq, Repr

namespace DeviceStore

/-- The `GET` of a poll. -/
def poll (s : DeviceStore) (deviceCode : String) : DevicePhase :=
  match s.devices deviceCode with
  | none => .done (.polled deviceCode .notFound)
  | some entry =>
    match entry.value.credentials with
    | some credentials => .consuming deviceCode credentials
    | none =>
      if entry.value.expiresAt ≤ s.clock then .expiring deviceCode
      else .done (.polled deviceCode .pending)

/-- The next command of a handler, `normalize` being `_normalize_user_code`. -/
def proceed (normalize : String → String) (s : DeviceStore) :
    DevicePhase → Option (DeviceStore × DevicePhase)
  | .creating deviceCode userCode =>
    some (s.setDevice deviceCode (some ⟨⟨userCode, s.clock + expiresIn, none⟩, true⟩),
      .done (.started deviceCode userCode))
  | .expiring deviceCode =>
    some (s.setDevice deviceCode none, .done (.polled deviceCode .expired))
  | .consuming deviceCode credentials =>
    some (s.setDevice deviceCode none, .done (.polled deviceCode (.approved credentials)))
  | .checked request =>
    match s.userCodes (normalize request.userCode) with
    | none => some (s.guess request.approver, .guessed request.approver)
    | some entry => some (s, .found request entry.value)
  | .guessed approver =>
    match s.attempts approver with
    | none => some (s.setAttempts approver (some ⟨1, false⟩), .counted approver)
    | some entry =>
      some (s.setAttempts approver (some ⟨entry.value + 1, entry.expires⟩),
        if entry.value + 1 = 1 then .counted approver else .done .userCodeNotFound)
  | .counted approver =>
    some (s.setAttempts approver ((s.attempts approver).map fun entry ↦ ⟨entry.value, true⟩),
      .done .userCodeNotFound)
  | .found request deviceCode =>
    match s.devices deviceCode with
    | none => some (s, .done .userCodeExpired)
    | some entry => some (s, .approving request deviceCode entry.value)
  | .approving request deviceCode session =>
    some (s.setDevice deviceCode (some ⟨{ session with credentials := some request.credentials },
      (s.devices deviceCode).any RedisEntry.expires⟩), .done .ok)
  | _ => none

/-- What a handler can do. -/
def turn (normalize : String → String) (s : DeviceStore) :
    DeviceTurn → DevicePhase → Option (DeviceStore × DevicePhase)
  | .start deviceCode, .ahead =>
    if deviceCode ∈ s.issued then none
    else some ({ s with issued := deviceCode :: s.issued }, .claiming deviceCode 5)
  | .claim userCode, .claiming deviceCode left =>
    if (s.userCodes userCode).isNone then
      some (s.claim userCode deviceCode, .creating deviceCode userCode)
    else some (s, if left ≤ 1 then .done .unallocated else .claiming deviceCode (left - 1))
  | .poll deviceCode, .ahead => some (s, s.poll deviceCode)
  | .approve request, .ahead =>
    some (s, if approveAttemptsMax ≤ s.count request.approver then .done .rateLimited
      else .checked request)
  | .proceed, phase => s.proceed normalize phase
  | .die, .ahead | .die, .done _ | .die, .dead => none
  | .die, _ => some (s, .dead)
  | _, _ => none

/-- Requests side by side, while keys expire and time passes. -/
def handlers (normalize : String → String) (ι : Type) :
    Handlers ι DeviceTurn (RedisKey ⊕ Timestamp) DeviceStore DevicePhase where
  turn _ m s phase := s.turn normalize m phase
  env e s :=
    match e with
    | .inl key => s.expire key
    | .inr now => if s.clock ≤ now then some { s with clock := now } else none

end DeviceStore

/-! ## What a turn does -/

/-- The stores and phases a turn leads to. -/
inductive DeviceEffect (normalize : String → String) (s : DeviceStore) :
    DeviceTurn → DevicePhase → DeviceStore → DevicePhase → Prop
  | draw (d : String) (fresh : d ∉ s.issued) :
    DeviceEffect normalize s (.start d) .ahead { s with issued := d :: s.issued } (.claiming d 5)
  | claim (u d : String) (left : Nat) (free : s.userCodes u = none) :
    DeviceEffect normalize s (.claim u) (.claiming d left) (s.claim u d) (.creating d u)
  | retry (u d : String) (left left' : Nat) :
    DeviceEffect normalize s (.claim u) (.claiming d left) s (.claiming d left')
  | giveUp (u d : String) (left : Nat) :
    DeviceEffect normalize s (.claim u) (.claiming d left) s (.done .unallocated)
  | create (d u : String) :
    DeviceEffect normalize s .proceed (.creating d u)
      (s.setDevice d (some ⟨⟨u, s.clock + expiresIn, none⟩, true⟩)) (.done (.started d u))
  | miss (d : String) (missing : s.devices d = none) :
    DeviceEffect normalize s (.poll d) .ahead s (.done (.polled d .notFound))
  | take (d : String) (entry : RedisEntry DeviceSession) (credentials : DeviceCredentials)
    (found : s.devices d = some entry) (approved : entry.value.credentials = some credentials) :
    DeviceEffect normalize s (.poll d) .ahead s (.consuming d credentials)
  | late (d : String) : DeviceEffect normalize s (.poll d) .ahead s (.expiring d)
  | wait (d : String) :
    DeviceEffect normalize s (.poll d) .ahead s (.done (.polled d .pending))
  | expire (d : String) :
    DeviceEffect normalize s .proceed (.expiring d) (s.setDevice d none)
      (.done (.polled d .expired))
  | consume (d : String) (credentials : DeviceCredentials) :
    DeviceEffect normalize s .proceed (.consuming d credentials) (s.setDevice d none)
      (.done (.polled d (.approved credentials)))
  | limit (request : ApproveRequest) :
    DeviceEffect normalize s (.approve request) .ahead s (.done .rateLimited)
  | check (request : ApproveRequest) (below : s.count request.approver < approveAttemptsMax) :
    DeviceEffect normalize s (.approve request) .ahead s (.checked request)
  | guess (request : ApproveRequest) (missing : s.userCodes (normalize request.userCode) = none) :
    DeviceEffect normalize s .proceed (.checked request) (s.guess request.approver)
      (.guessed request.approver)
  | find (request : ApproveRequest) (d : String) :
    DeviceEffect normalize s .proceed (.checked request) s (.found request d)
  | count (approver : String) (missing : s.attempts approver = none) :
    DeviceEffect normalize s .proceed (.guessed approver)
      (s.setAttempts approver (some ⟨1, false⟩)) (.counted approver)
  | recount (approver : String) (entry : RedisEntry Nat) (phase : DevicePhase)
    (found : s.attempts approver = some entry)
    (next : phase = .counted approver ∨ phase = .done .userCodeNotFound) :
    DeviceEffect normalize s .proceed (.guessed approver)
      (s.setAttempts approver (some ⟨entry.value + 1, entry.expires⟩)) phase
  | limitTime (approver : String) :
    DeviceEffect normalize s .proceed (.counted approver)
      (s.setAttempts approver ((s.attempts approver).map fun entry ↦ ⟨entry.value, true⟩))
      (.done .userCodeNotFound)
  | gone (request : ApproveRequest) (d : String) :
    DeviceEffect normalize s .proceed (.found request d) s (.done .userCodeExpired)
  | read (request : ApproveRequest) (d : String) (entry : RedisEntry DeviceSession)
    (found : s.devices d = some entry) :
    DeviceEffect normalize s .proceed (.found request d) s (.approving request d entry.value)
  | approve (request : ApproveRequest) (d : String) (session : DeviceSession)
    (entry : RedisEntry DeviceSession) :
    DeviceEffect normalize s .proceed (.approving request d session)
      (s.setDevice d (some entry)) (.done .ok)
  | die (phase : DevicePhase) (started : phase ≠ .ahead)
    (unfinished : ∀ response, phase ≠ .done response) :
    DeviceEffect normalize s .die phase s .dead

namespace DeviceStore

variable {normalize : String → String} {s s' : DeviceStore} {phase phase' : DevicePhase}
  {m : DeviceTurn}

theorem proceed_effect (h : s.proceed normalize phase = some (s', phase')) :
    DeviceEffect normalize s .proceed phase s' phase' := by
  unfold proceed at h
  split at h
  next d u =>
    cases h
    exact .create d u
  next d =>
    cases h
    exact .expire d
  next d credentials =>
    cases h
    exact .consume d credentials
  next request =>
    split at h
    next hmissing =>
      cases h
      exact .guess request hmissing
    next entry _ =>
      cases h
      exact .find request _
  next approver =>
    split at h
    next hmissing =>
      cases h
      exact .count approver hmissing
    next entry hfound =>
      cases h
      refine .recount approver entry _ hfound ?_
      split
      · exact .inl rfl
      · exact .inr rfl
  next approver =>
    cases h
    exact .limitTime approver
  next request d =>
    split at h
    next =>
      cases h
      exact .gone request d
    next entry hfound =>
      cases h
      exact .read request d entry hfound
  next request d session =>
    cases h
    exact .approve request d session _
  next => cases h

theorem turn_effect (h : s.turn normalize m phase = some (s', phase')) :
    DeviceEffect normalize s m phase s' phase' := by
  unfold turn at h
  split at h
  next d =>
    split at h
    · cases h
    next hfresh =>
      cases h
      exact .draw d hfresh
  next u d left =>
    split at h
    next hfree =>
      cases h
      exact .claim u d left (Option.isNone_iff_eq_none.mp hfree)
    next =>
      cases h
      split
      · exact .giveUp u d left
      · exact .retry u d left _
  next d =>
    cases h
    rw [poll]
    split
    next hmissing => exact .miss d hmissing
    next entry hfound =>
      split
      next credentials happroved => exact .take d entry credentials hfound happroved
      next =>
        split
        · exact .late d
        · exact .wait d
  next request =>
    cases h
    split
    · exact .limit request
    next hbelow => exact .check request (not_le.mp hbelow)
  next phase => exact proceed_effect h
  next => cases h
  next => cases h
  next => cases h
  next phase hahead hdone hdead =>
    cases h
    exact .die _ hahead hdone
  next => cases h

end DeviceStore

end Haki
