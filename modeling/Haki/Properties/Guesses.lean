import Haki.Api.DeviceAuth
import Mathlib.Data.Fintype.Powerset

/-!
# Counting wrong user codes

`device_approve` reads the counter of its approver, looks the code up, and only
then counts a wrong one.  The cap holds as long as a request is let through only
when the counter, and the requests that may still be counted, are below it.
-/

namespace Haki

open Control

/-! ## Roles -/

/-- What a handler does about the counter of one approver. -/
inductive GuessRole where
  | idle
  /-- It has read the counter. -/
  | checked
  /-- It has looked up a wrong code, and counts it next. -/
  | guessed
  /-- It has created the counter, and gives it an expiry next. -/
  | counted
deriving DecidableEq, Repr

/-- A request that may still be counted. -/
def GuessRole.InFlight (r : GuessRole) : Prop := r = .checked ∨ r = .guessed

instance : DecidablePred GuessRole.InFlight := fun _ ↦ inferInstanceAs (Decidable (_ ∨ _))

/-- What a phase is about the counter of one approver. -/
def DevicePhase.guessRole (approver : String) : DevicePhase → GuessRole
  | .checked request => if request.approver = approver then .checked else .idle
  | .guessed a => if a = approver then .guessed else .idle
  | .counted a => if a = approver then .counted else .idle
  | _ => .idle

/-- What a turn does about the counter of one approver. -/
inductive GuessEffect (approver : String) (s : DeviceStore) :
    DeviceTurn → GuessRole → DeviceStore → GuessRole → Prop
  /-- Nothing: a request that has guessed stays, unless it dies. -/
  | idle (m : DeviceTurn) (s' : DeviceStore) (role role' : GuessRole)
    (attempts : s'.attempts approver = s.attempts approver)
    (wrong : s'.wrong approver = s.wrong approver)
    (stay : role' = role ∨ role' = .idle ∧ (role = .guessed ∨ role = .counted → m = .die)) :
    GuessEffect approver s m role s' role'
  | check (request : ApproveRequest) (mine : request.approver = approver)
    (below : s.count approver < approveAttemptsMax) :
    GuessEffect approver s (.approve request) .idle s .checked
  | guess (s' : DeviceStore) (attempts : s'.attempts approver = s.attempts approver)
    (wrong : s'.wrong approver = s.wrong approver + 1) :
    GuessEffect approver s .proceed .checked s' .guessed
  | count (s' : DeviceStore) (missing : s.attempts approver = none)
    (attempts : s'.attempts approver = some ⟨1, false⟩)
    (wrong : s'.wrong approver = s.wrong approver) :
    GuessEffect approver s .proceed .guessed s' .counted
  | recount (s' : DeviceStore) (entry : RedisEntry Nat) (role' : GuessRole)
    (found : s.attempts approver = some entry)
    (attempts : s'.attempts approver = some ⟨entry.value + 1, entry.expires⟩)
    (wrong : s'.wrong approver = s.wrong approver) (next : role' = .counted ∨ role' = .idle) :
    GuessEffect approver s .proceed .guessed s' role'
  | limitTime (s' : DeviceStore)
    (attempts : s'.attempts approver = (s.attempts approver).map fun e ↦ ⟨e.value, true⟩)
    (wrong : s'.wrong approver = s.wrong approver) :
    GuessEffect approver s .proceed .counted s' .idle

namespace DeviceStore

variable {s : DeviceStore} {a approver : String} {entry : Option (RedisEntry Nat)}

theorem setAttempts_self : (s.setAttempts a entry).attempts a = entry := Function.update_self ..

theorem setAttempts_of_ne (h : approver ≠ a) :
    (s.setAttempts a entry).attempts approver = s.attempts approver := Function.update_of_ne h ..

end DeviceStore

/-- The role of a handler in what it does. -/
theorem DeviceEffect.guessRole {normalize : String → String} {s s' : DeviceStore} {m : DeviceTurn}
    {phase phase' : DevicePhase} (h : DeviceEffect normalize s m phase s' phase')
    (approver : String) :
    GuessEffect approver s m (phase.guessRole approver) s' (phase'.guessRole approver) := by
  have hquiet {r : GuessRole} (hr : r = .idle) : r = .guessed ∨ r = .counted → m = .die := by
    rintro (h | h) <;> exact absurd (hr.symm.trans h) (by decide)
  cases h with
  | check request below =>
    by_cases ha : request.approver = approver
    · subst ha
      simp only [DevicePhase.guessRole, if_pos]
      exact .check request rfl below
    · exact .idle _ _ _ _ rfl rfl (.inr ⟨if_neg ha, hquiet rfl⟩)
  | guess request missing =>
    by_cases ha : request.approver = approver
    · subst ha
      simp only [DevicePhase.guessRole, if_pos]
      exact .guess _ rfl (Function.update_self ..)
    · refine .idle _ _ _ _ rfl (Function.update_of_ne (Ne.symm ha) ..) (.inl ?_)
      simp only [DevicePhase.guessRole, if_neg ha]
  | find request d =>
    refine .idle _ _ _ _ rfl rfl (.inr ⟨rfl, ?_⟩)
    simp only [DevicePhase.guessRole]
    split <;> rintro (h | h) <;> cases h
  | count a missing =>
    by_cases ha : a = approver
    · subst ha
      simp only [DevicePhase.guessRole, if_pos]
      exact .count _ missing DeviceStore.setAttempts_self rfl
    · refine .idle _ _ _ _ (DeviceStore.setAttempts_of_ne (Ne.symm ha)) rfl (.inl ?_)
      simp only [DevicePhase.guessRole, if_neg ha]
  | recount a entry phase found next =>
    by_cases ha : a = approver
    · subst ha
      simp only [DevicePhase.guessRole, if_pos]
      refine .recount _ entry _ found DeviceStore.setAttempts_self rfl ?_
      rcases next with rfl | rfl
      · exact .inl (if_pos rfl)
      · exact .inr rfl
    · refine .idle _ _ _ _ (DeviceStore.setAttempts_of_ne (Ne.symm ha)) rfl (.inl ?_)
      rcases next with rfl | rfl <;> simp only [DevicePhase.guessRole, if_neg ha]
  | limitTime a =>
    by_cases ha : a = approver
    · subst ha
      simp only [DevicePhase.guessRole, if_pos]
      exact .limitTime _ DeviceStore.setAttempts_self rfl
    · refine .idle _ _ _ _ (DeviceStore.setAttempts_of_ne (Ne.symm ha)) rfl (.inl ?_)
      simp only [DevicePhase.guessRole, if_neg ha]
  | die phase => exact .idle _ _ _ _ rfl rfl (.inr ⟨rfl, fun _ ↦ rfl⟩)
  | draw | claim | retry | giveUp | create | miss | take | late | wait | expire | consume | limit
  | gone | read | approve =>
    exact .idle _ _ _ _ rfl rfl (.inl rfl)

/-! ## Roles side by side -/

section Roles

variable {ι : Type} [DecidableEq ι] {approver : String} {s s' : DeviceStore} {m : DeviceTurn}
  {roles : ι → GuessRole} {role : GuessRole} {i : ι}

/-- What holds of the counter of an approver, and of the roles of the handlers. -/
structure Guarded (approver : String) (s : DeviceStore) (roles : ι → GuessRole) : Prop where
  /-- The counter, and the requests that may still be counted, are within the cap. -/
  within : ∃ n, Counts GuessRole.InFlight roles n ∧ s.count approver + n ≤ approveAttemptsMax
  /-- Every wrong code is counted, or will be. -/
  wrong : ∃ n, Counts (· = .guessed) roles n ∧ s.wrong approver ≤ s.count approver + n
  /-- A counter expires, or will. -/
  expires : ∀ entry ∈ s.attempts approver, entry.expires ∨ ∃ j, roles j = .counted

omit [DecidableEq ι] in
/-- No more wrong codes are looked up than the cap says. -/
theorem Guarded.wrong_le (h : Guarded approver s roles) :
    s.wrong approver ≤ approveAttemptsMax := by
  obtain ⟨n, hn, hwithin⟩ := h.within
  obtain ⟨k, hk, hwrong⟩ := h.wrong
  have := hk.le hn fun _ hr ↦ .inr hr
  omega

theorem count_eq {entry : Option (RedisEntry Nat)} (h : s.attempts approver = entry) :
    s.count approver = entry.elim 0 RedisEntry.value := by rw [DeviceStore.count, h]

/-- A counter that is as it was is guarded as it was. -/
private theorem expires_update (h : ∀ entry ∈ s.attempts approver,
      entry.expires ∨ ∃ j, roles j = .counted)
    (hattempts : s'.attempts approver = s.attempts approver)
    (hi : roles i = .counted → role = .counted) : ∀ entry ∈ s'.attempts approver,
      entry.expires ∨ ∃ j, Function.update roles i role j = .counted := by
  intro entry hentry
  rw [hattempts] at hentry
  refine (h entry hentry).imp_right fun ⟨j, hj⟩ ↦ ⟨j, ?_⟩
  by_cases hji : j = i
  · subst hji
    rw [Function.update_self]
    exact hi hj
  · rw [Function.update_of_ne hji]
    exact hj

/-- A turn that leaves the counter alone. -/
theorem Guarded.idle (h : Guarded approver s roles)
    (hattempts : s'.attempts approver = s.attempts approver)
    (hwrong : s'.wrong approver = s.wrong approver)
    (hstay : role = roles i ∨ role = .idle ∧ roles i ≠ .guessed ∧ roles i ≠ .counted) :
    Guarded approver s' (Function.update roles i role) := by
  have hcount : s'.count approver = s.count approver := by
    rw [DeviceStore.count, DeviceStore.count, hattempts]
  obtain ⟨n, hn, hwithin⟩ := h.within
  obtain ⟨k, hk, hle⟩ := h.wrong
  have hguessed : role = .guessed ↔ roles i = .guessed := by
    rcases hstay with rfl | ⟨rfl, hne, -⟩
    · rfl
    · exact iff_of_false (by decide) hne
  refine ⟨?_, ⟨k, hk.stay hguessed, by rw [hwrong, hcount]; exact hle⟩,
    expires_update h.expires hattempts fun hi ↦ ?_⟩
  · rw [hcount]
    by_cases hflight : role.InFlight ↔ (roles i).InFlight
    · exact ⟨n, hn.stay hflight, hwithin⟩
    · rcases hstay with rfl | ⟨rfl, -⟩
      · exact absurd Iff.rfl hflight
      · have hi : (roles i).InFlight :=
          by_contra fun hi ↦ hflight (iff_of_false (by decide) hi)
        obtain ⟨l, rfl, hl⟩ := hn.leave (t := .idle) hi (by decide)
        exact ⟨l, hl, by omega⟩
  · rcases hstay with rfl | ⟨-, -, hne⟩
    · exact hi
    · exact absurd hi hne

/-- A turn of a request that was let through below the cap. -/
theorem Guarded.turn (h : Guarded approver s roles)
    (hturn : GuessEffect approver s m (roles i) s' role)
    (hcheck : ∀ request, m = .approve request → request.approver = approver →
      s.count approver < approveAttemptsMax → ∀ who : Finset ι, (∀ j ∈ who, (roles j).InFlight) →
        s.count approver + who.card < approveAttemptsMax)
    (hdie : m = .die → roles i ≠ .guessed ∧ roles i ≠ .counted) :
    Guarded approver s' (Function.update roles i role) := by
  generalize hrole : roles i = own at hturn
  obtain ⟨n, hn, hwithin⟩ := h.within
  obtain ⟨k, hk, hle⟩ := h.wrong
  cases hturn with
  | idle _ _ _ _ attempts wrong stay =>
    refine h.idle attempts wrong ?_
    rcases stay with rfl | ⟨rfl, hquiet⟩
    · exact .inl hrole.symm
    · refine .inr ⟨rfl, fun hi ↦ ?_, fun hi ↦ ?_⟩
      · exact (hdie (hquiet (.inl (hrole ▸ hi)))).1 hi
      · exact (hdie (hquiet (.inr (hrole ▸ hi)))).2 hi
  | check request mine below =>
    refine ⟨⟨n + 1, hn.enter (by rw [hrole]; decide) (.inl rfl), ?_⟩,
      ⟨k, hk.stay (by rw [hrole]; decide), hle⟩,
      expires_update h.expires rfl (by rw [hrole]; rintro ⟨⟩)⟩
    obtain ⟨who, hwho, rfl⟩ := hn
    have := hcheck request rfl mine below who fun j hj ↦ (hwho j).mp hj
    omega
  | guess _ attempts wrong =>
    have hcount : s'.count approver = s.count approver := by
      rw [DeviceStore.count, DeviceStore.count, attempts]
    refine ⟨⟨n, hn.stay (by rw [hrole]; decide), by rw [hcount]; exact hwithin⟩,
      ⟨k + 1, hk.enter (by rw [hrole]; decide) rfl, by rw [hcount, wrong]; omega⟩,
      expires_update h.expires attempts (by rw [hrole]; rintro ⟨⟩)⟩
  | count _ missing attempts wrong =>
    obtain ⟨n', rfl, hn'⟩ := hn.leave (t := .counted) (by rw [hrole]; decide) (by decide)
    obtain ⟨k', rfl, hk'⟩ := hk.leave (t := .counted) hrole (by decide)
    have hcount := count_eq missing
    have hcount' := count_eq attempts
    simp only [Option.elim_none, Option.elim_some] at hcount hcount'
    refine ⟨⟨n', hn', by omega⟩, ⟨k', hk', by omega⟩, fun _ _ ↦ .inr ⟨i, Function.update_self ..⟩⟩
  | recount _ entry _ found attempts wrong next =>
    have hne : ¬ role.InFlight ∧ role ≠ .guessed := by rcases next with rfl | rfl <;> decide
    obtain ⟨n', rfl, hn'⟩ := hn.leave (t := role) (by rw [hrole]; decide) hne.1
    obtain ⟨k', rfl, hk'⟩ := hk.leave (t := role) hrole hne.2
    have hcount := count_eq found
    have hcount' := count_eq attempts
    simp only [Option.elim_some] at hcount hcount'
    refine ⟨⟨n', hn', by omega⟩, ⟨k', hk', by omega⟩, fun e he ↦ ?_⟩
    rw [attempts] at he
    obtain rfl := Option.some.inj he
    refine (h.expires entry found).imp_right fun ⟨j, hj⟩ ↦ ⟨j, ?_⟩
    rw [Function.update_of_ne (by rintro rfl; rw [hrole] at hj; cases hj), hj]
  | limitTime _ attempts wrong =>
    have hcount : s'.count approver = s.count approver := by
      rw [count_eq attempts, DeviceStore.count]
      cases s.attempts approver <;> rfl
    refine ⟨⟨n, hn.stay (by rw [hrole]; decide), by rw [hcount]; exact hwithin⟩,
      ⟨k, hk.stay (by rw [hrole]; decide), by rw [hcount, wrong]; exact hle⟩, fun e he ↦ .inl ?_⟩
    rw [attempts] at he
    obtain ⟨_, -, rfl⟩ := Option.map_eq_some_iff.mp he
    rfl

omit [DecidableEq ι] in
/-- A counter that expires starts over. -/
theorem Guarded.expire {key : RedisKey} (h : Guarded approver s roles)
    (hexpire : s.expire key = some s') : Guarded approver s' roles := by
  cases key with
  | userCode u =>
    obtain ⟨-, heq⟩ := Option.ite_none_right_eq_some.mp hexpire
    cases heq
    exact ⟨h.within, h.wrong, h.expires⟩
  | device d =>
    obtain ⟨-, heq⟩ := Option.ite_none_right_eq_some.mp hexpire
    cases heq
    exact ⟨h.within, h.wrong, h.expires⟩
  | attempts a =>
    obtain ⟨-, heq⟩ := Option.ite_none_right_eq_some.mp hexpire
    cases heq
    by_cases ha : approver = a
    · subst ha
      obtain ⟨n, hn, hwithin⟩ := h.within
      obtain ⟨k, hk, -⟩ := h.wrong
      have hnone : (s.setAttempts approver none).attempts approver = none :=
        DeviceStore.setAttempts_self
      refine ⟨⟨n, hn, ?_⟩, ⟨k, hk, ?_⟩, fun e he ↦ ?_⟩
      · simp only [DeviceStore.count, hnone, Option.elim_none]
        omega
      · simp [Function.update_self]
      · exact absurd (hnone.symm.trans he) (by simp)
    · have hattempts : (s.setAttempts a none).attempts approver = s.attempts approver :=
        DeviceStore.setAttempts_of_ne ha
      refine ⟨?_, ?_, ?_⟩
      · simpa only [DeviceStore.count, hattempts] using h.within
      · simpa only [DeviceStore.count, hattempts, Function.update_of_ne ha] using h.wrong
      · simpa only [hattempts] using h.expires

end Roles

/-! ## Runs -/

section Runs

variable {normalize : String → String} {ι : Type} [DecidableEq ι]
  {c c₀ : Config ι DeviceStore DevicePhase}

/-- The request has looked up a wrong code, and is not done counting it. -/
def DevicePhase.OwesCount : DevicePhase → Prop
  | .guessed _ | .counted _ => True
  | _ => False

instance : DecidablePred DevicePhase.OwesCount
  | .guessed _ | .counted _ => isTrue trivial
  | .ahead | .claiming _ _ | .creating _ _ | .expiring _ | .consuming _ _ | .checked _
  | .found _ _ | .approving _ _ _ | .done _ | .dead => isFalse id

theorem DevicePhase.owesCount_of_guessRole {approver : String} {phase : DevicePhase}
    (h : phase.guessRole approver = .guessed ∨ phase.guessRole approver = .counted) :
    phase.OwesCount := by
  unfold DevicePhase.guessRole at h
  split at h
  · split at h <;> rcases h with h | h <;> cases h
  · trivial
  · trivial
  · rcases h with h | h <;> cases h

/-- A request is let through only when the counter and the requests of its approver that may still
be counted are below the cap, and no request dies before its wrong code is counted and the counter
has an expiry. -/
def GuessesCounted (c : Config ι DeviceStore DevicePhase) :
    Move ι DeviceTurn (RedisKey ⊕ Timestamp) → Prop
  | .turn _ (.approve request) => c.shared.count request.approver < approveAttemptsMax →
    ∀ who : Finset ι, (∀ j ∈ who, ((c.own j).guessRole request.approver).InFlight) →
      c.shared.count request.approver + who.card < approveAttemptsMax
  | .turn i .die => ¬ (c.own i).OwesCount
  | _ => True

instance [Fintype ι] : ∀ (c : Config ι DeviceStore DevicePhase) x, Decidable (GuessesCounted c x)
  | c, .turn _ (.approve request) =>
    inferInstanceAs (Decidable (c.shared.count request.approver < _ → ∀ _ : Finset ι, _ → _))
  | c, .turn i .die => inferInstanceAs (Decidable (¬ (c.own i).OwesCount))
  | _, .turn _ (.start _) | _, .turn _ (.claim _) | _, .turn _ (.poll _) | _, .turn _ .proceed
  | _, .env _ => isTrue trivial

/-- No handler has begun, and the counters are as they should be. -/
structure Unguessed (c : Config ι DeviceStore DevicePhase) : Prop where
  own : ∀ i, c.own i = .ahead
  within : ∀ approver, c.shared.count approver ≤ approveAttemptsMax
  wrong : ∀ approver, c.shared.wrong approver ≤ c.shared.count approver
  expires : ∀ approver, ∀ entry ∈ c.shared.attempts approver, entry.expires

/-- What holds of the counter of every approver. -/
structure GuessesCapped (c : Config ι DeviceStore DevicePhase) : Prop where
  /-- Since the counter last expired, no more wrong codes were looked up than the cap says. -/
  capped : ∀ approver, c.shared.wrong approver ≤ approveAttemptsMax
  /-- A counter has an expiry, or the request that created it gives it one next. -/
  expires : ∀ approver, ∀ entry ∈ c.shared.attempts approver,
    entry.expires ∨ ∃ j, c.own j = .counted approver

theorem DevicePhase.counted_of_guessRole {approver : String} {phase : DevicePhase}
    (h : phase.guessRole approver = .counted) : phase = .counted approver := by
  unfold DevicePhase.guessRole at h
  split at h
  · split at h <;> cases h
  · split at h <;> cases h
  next a =>
    split at h
    next ha => rw [ha]
    next => cases h
  · cases h

/-- **Wrong codes are capped** in every run whose requests are let through below the cap. -/
theorem guesses_capped {moves : List (Move ι DeviceTurn (RedisKey ⊕ Timestamp))}
    (h₀ : Unguessed c₀)
    (hrun : (DeviceStore.handlers normalize ι).Runs GuessesCounted c₀ moves c) :
    GuessesCapped c := by
  have hguarded (approver : String) :
      Guarded approver c.shared (DevicePhase.guessRole approver ∘ c.own) := by
    refine hrun.preserves
      (I := fun c ↦ Guarded approver c.shared (DevicePhase.guessRole approver ∘ c.own))
      (fun c i m s phase h hC hturn ↦ ?_) (fun c e s h _ henv ↦ ?_) ?_
    · rw [Function.comp_update]
      refine h.turn ((DeviceStore.turn_effect hturn).guessRole approver) ?_ ?_
      · rintro request rfl rfl
        exact hC
      · rintro rfl
        exact ⟨fun hi ↦ hC (DevicePhase.owesCount_of_guessRole (.inl hi)),
          fun hi ↦ hC (DevicePhase.owesCount_of_guessRole (.inr hi))⟩
    · rcases e with key | now
      · exact h.expire henv
      · obtain ⟨-, heq⟩ := Option.ite_none_right_eq_some.mp henv
        cases heq
        exact ⟨h.within, h.wrong, h.expires⟩
    · have hidle (j : ι) : (DevicePhase.guessRole approver ∘ c₀.own) j = .idle := by
        rw [Function.comp_apply, h₀.own j]
        rfl
      exact ⟨⟨0, counts_zero fun j ↦ by rw [hidle]; decide, h₀.within approver⟩,
        ⟨0, counts_zero fun j ↦ by rw [hidle]; decide, h₀.wrong approver⟩,
        fun entry hentry ↦ .inl (h₀.expires approver entry hentry)⟩
  refine ⟨fun approver ↦ (hguarded approver).wrong_le, fun approver entry hentry ↦ ?_⟩
  refine ((hguarded approver).expires entry hentry).imp_right fun ⟨j, hj⟩ ↦ ⟨j, ?_⟩
  exact DevicePhase.counted_of_guessRole hj

end Runs

/-! ## Samples -/

namespace Sample

/-- Nothing is stored, and no handler has begun. -/
def noDevices (n : ℕ) : Config (Fin n) DeviceStore DevicePhase where
  shared := ⟨fun _ ↦ none, fun _ ↦ none, fun _ ↦ none, 0, [], fun _ ↦ 0⟩
  own _ := .ahead

/-- An approver with a wrong code. -/
def wrongCode : DeviceTurn := .approve ⟨"WRNG-CODE", some "user", ⟨"key", "org", "project"⟩⟩

/-- Two wrong codes one after the other. -/
def guessesInTurn : List (Move (Fin 2) DeviceTurn (RedisKey ⊕ Timestamp)) :=
  (List.finRange 2).flatMap fun i ↦ .turn i wrongCode :: List.replicate (3 - i) (.turn i .proceed)

/-- Eleven requests read the counter before one of them counts. -/
def guessesAtOnce : List (Move (Fin 11) DeviceTurn (RedisKey ⊕ Timestamp)) :=
  (List.finRange 11).map (.turn · wrongCode) ++ (List.finRange 11).map (.turn · .proceed)

/-- A request dies after it has created the counter. -/
def deadGuess : List (Move (Fin 1) DeviceTurn (RedisKey ⊕ Timestamp)) :=
  [.turn 0 wrongCode, .turn 0 .proceed, .turn 0 .proceed, .turn 0 .die]

end Sample

theorem unguessed_sample (n : ℕ) : Unguessed (Sample.noDevices n) :=
  ⟨fun _ ↦ rfl, fun _ ↦ Nat.zero_le _, fun _ ↦ Nat.le_refl _, by rintro _ _ ⟨⟩⟩

/-- Two wrong codes one after the other are counted. -/
theorem guesses_capped_sample : ∃ c, (DeviceStore.handlers id (Fin 2)).run (Sample.noDevices 2)
    Sample.guessesInTurn = some c ∧ GuessesCapped c := by
  have hrun : ((DeviceStore.handlers id (Fin 2)).run (Sample.noDevices 2)
    Sample.guessesInTurn).isSome := by decide
  obtain ⟨c, hc⟩ := Option.isSome_iff_exists.mp hrun
  exact ⟨c, hc, guesses_capped (unguessed_sample 2) (Handlers.runs_of_allMeet hc (by decide))⟩

/-- Eleven requests at once look up eleven wrong codes, and the counter of a request that dies
has no expiry. -/
theorem guesses_exceed :
    (∃ c, (DeviceStore.handlers id (Fin 11)).run (Sample.noDevices 11) Sample.guessesAtOnce =
      some c ∧ c.shared.wrong "user" = 11 ∧ ¬ GuessesCapped c) ∧
    ∃ c, (DeviceStore.handlers id (Fin 1)).run (Sample.noDevices 1) Sample.deadGuess = some c ∧
      c.shared.attempts "user" = some ⟨1, false⟩ ∧ ¬ GuessesCapped c := by
  refine ⟨⟨_, rfl, rfl, fun h ↦ ?_⟩, ⟨_, rfl, rfl, fun h ↦ ?_⟩⟩
  · exact absurd (h.capped "user") (by decide)
  · exact absurd (h.expires "user" ⟨1, false⟩ rfl) (by decide)

end Haki
