import Haki.Api.Keys
import Mathlib.Data.Fintype.Basic

/-!
# The first key

The count of the keys and the commit of the first one are separate statements.
One key is minted without a valid key as long as no request counts the keys
while another one, that has counted none, has not committed.
-/

namespace Haki

open Control

section Bootstrap

variable {hash : String → String} {adminKey : String} {ι : Type} [DecidableEq ι]
  {c c₀ : Config ι ApiKeys KeyPhase}
  {keys keys' : ApiKeys} {phase phase' : KeyPhase} {m : KeyTurn}

/-- The request has counted no key, and mints one next. -/
def KeyPhase.Mints : KeyPhase → Prop
  | .adding _ _ _ bootstrap => bootstrap
  | _ => False

instance : DecidablePred KeyPhase.Mints
  | .adding _ _ _ bootstrap => inferInstanceAs (Decidable (bootstrap = true))
  | .ahead | .counting _ | .loading _ _ | .revoking _ | .done _ | .dead => isFalse id

/-- The number of keys that were minted without a valid key. -/
def minted (keys : ApiKeys) : ℕ := keys.countP ApiKey.bootstrap

/-- The request counts the keys next. -/
def KeyPhase.Counts : KeyPhase → Prop
  | .counting _ => True
  | _ => False

instance : DecidablePred KeyPhase.Counts
  | .counting _ => isTrue trivial
  | .ahead | .adding _ _ _ _ | .loading _ _ | .revoking _ | .done _ | .dead => isFalse id

/-- No request counts the keys to be none while another one is about to mint the first. -/
def CountsAlone (c : Config ι ApiKeys KeyPhase) : Move ι KeyTurn ApiKey → Prop
  | .turn i (.proceed _) => (c.own i).Counts → c.shared = [] → ∀ j, ¬ (c.own j).Mints
  | _ => True

instance [Fintype ι] : ∀ (c : Config ι ApiKeys KeyPhase) x, Decidable (CountsAlone c x)
  | c, .turn i (.proceed _) => inferInstanceAs (Decidable ((c.own i).Counts → _ → _))
  | _, .turn _ (.create _) | _, .turn _ (.revoke _ _) | _, .turn _ .die | _, .env _ =>
    isTrue trivial

/-- What a turn does to the keys minted without a valid key. -/
inductive MintEffect (keys : ApiKeys) : KeyTurn → KeyPhase → ApiKeys → KeyPhase → Prop
  /-- Nothing: the request goes on to mint only if it was to. -/
  | idle (m : KeyTurn) (phase phase' : KeyPhase) (keys' : ApiKeys)
    (minted : minted keys' = minted keys) (stay : phase'.Mints → phase.Mints) :
    MintEffect keys m phase keys' phase'
  | count (clear : String) (phase phase' : KeyPhase) (counts : phase.Counts) (none : keys = []) :
    MintEffect keys (.proceed clear) phase keys phase'
  | mint (clear : String) (phase phase' : KeyPhase) (keys' : ApiKeys) (mints : phase.Mints)
    (minted : minted keys' = minted keys + 1) (ended : ¬ phase'.Mints) :
    MintEffect keys (.proceed clear) phase keys' phase'

theorem minted_append (key : ApiKey) :
    minted (keys ++ [key]) = minted keys + if key.bootstrap then 1 else 0 := by
  rw [minted, List.countP_append, List.countP_singleton, minted]

theorem minted_revoke (id : ℕ) :
    minted (keys.map fun key ↦ if key.id = id then { key with revoked := true } else key) =
      minted keys := by
  rw [minted, List.countP_map, minted]
  refine List.countP_congr fun key _ ↦ ?_
  simp only [Function.comp_apply]
  split <;> rfl

theorem KeyPhase.Refused.not_mints (h : phase.Refused) : ¬ phase.Mints := by
  cases phase with
  | adding => exact h.elim
  | _ => exact id

theorem keyTurn_effect (h : keyTurn hash adminKey keys m phase = some (keys', phase')) :
    MintEffect keys m phase keys' phase' := by
  cases keyTurn_step h with
  | stop m phase phase' refused =>
    exact .idle _ _ _ _ rfl fun hmints ↦ absurd hmints refused.not_mints
  | admin => exact .idle _ _ _ _ rfl fun hmints ↦ by cases hmints
  | caller => exact .idle _ _ _ _ rfl fun hmints ↦ by cases hmints
  | count => exact .idle _ _ _ _ rfl False.elim
  | first clear request none => exact .count _ _ _ trivial none
  | add clear request orgId projectId bootstrap =>
    cases bootstrap with
    | false => exact .idle _ _ _ _ (by rw [minted_append]; rfl) False.elim
    | true => exact .mint _ _ _ _ rfl (by rw [minted_append]; rfl) id
  | load => exact .idle _ _ _ _ rfl False.elim
  | found => exact .idle _ _ _ _ rfl False.elim
  | revoke clear id => exact .idle _ _ _ _ (minted_revoke id) False.elim

/-! ## Runs -/

/-- What holds of the keys and of the requests. -/
structure MintsOnce (keys : ApiKeys) (own : ι → KeyPhase) : Prop where
  alone : AtMostOne KeyPhase.Mints own
  before : ∀ i, (own i).Mints → minted keys = 0
  minted : minted keys ≤ 1

/-- A turn of a request that counts alone. -/
theorem MintsOnce.turn {i : ι} (h : MintsOnce keys c.own)
    (hturn : MintEffect keys m (c.own i) keys' phase')
    (hcount : ∀ clear, m = .proceed clear → (c.own i).Counts → keys = [] →
      ∀ j, ¬ (c.own j).Mints) :
    MintsOnce keys' (Function.update c.own i phase') := by
  generalize hown : c.own i = phase at hturn
  cases hturn with
  | idle _ _ _ _ hminted stay =>
    refine ⟨h.alone.stay fun ht ↦ hown ▸ stay ht, ?_, hminted ▸ h.minted⟩
    refine (Function.forall_update_iff c.own fun _ x ↦ x.Mints → _).mpr ⟨fun ht ↦ ?_, fun j _ ht ↦ ?_⟩
    · rw [hminted]
      exact h.before i (hown ▸ stay ht)
    · rw [hminted]
      exact h.before j ht
  | count clear _ _ counts none =>
    have hnone := hcount clear rfl (hown ▸ counts) none
    refine ⟨h.alone.enter fun _ j _ ↦ hnone j, fun _ _ ↦ by rw [none]; rfl, h.minted⟩
  | mint _ _ _ _ mints hminted ended =>
    have hmints : (c.own i).Mints := hown ▸ mints
    refine ⟨h.alone.stay fun ht ↦ absurd ht ended, ?_, ?_⟩
    · refine (Function.forall_update_iff c.own fun _ x ↦ x.Mints → _).mpr
        ⟨fun ht ↦ absurd ht ended, fun j hj ht ↦ absurd (h.alone j i ht hmints) hj⟩
    · rw [hminted, h.before i hmints]

/-- **One key is minted without a valid key** in every run whose requests count alone. -/
theorem mints_once {moves : List (Move ι KeyTurn ApiKey)} (hown : ∀ i, c₀.own i = .ahead)
    (hkeys : minted c₀.shared ≤ 1)
    (hrun : (keyHandlers hash adminKey ι).Runs CountsAlone c₀ moves c) : minted c.shared ≤ 1 := by
  have hmints : MintsOnce c.shared c.own := by
    refine hrun.preserves (I := fun c ↦ MintsOnce c.shared c.own)
      (fun c i m keys phase h hC hturn ↦ ?_) (fun c key keys h _ henv ↦ ?_) ?_
    · refine h.turn (keyTurn_effect hturn) ?_
      rintro clear rfl
      exact hC
    · obtain ⟨hkey, heq⟩ := Option.ite_none_left_eq_some.mp henv
      cases heq
      have hminted : minted (c.shared ++ [key]) = minted c.shared := by
        rw [minted_append, if_neg fun h ↦ hkey (.inl h), Nat.add_zero]
      exact ⟨h.alone, fun i hi ↦ hminted.trans (h.before i hi), hminted.trans_le h.minted⟩
    · have hahead (i : ι) : ¬ (c₀.own i).Mints := by rw [hown]; exact id
      exact ⟨fun i _ hi ↦ absurd hi (hahead i), fun i hi ↦ absurd hi (hahead i), hkeys⟩
  exact hmints.minted

end Bootstrap

/-! ## Samples -/

namespace Sample

/-- No key is stored, and no request has begun. -/
def noKeys : Config (Fin 2) ApiKeys KeyPhase := ⟨[], fun _ ↦ .ahead⟩

/-- A creation without a token. -/
def anonymousKey : KeyTurn := .create ⟨[], "org", "project", none⟩

/-- Two creations one after the other. -/
def keysInTurn : List (Move (Fin 2) KeyTurn ApiKey) :=
  [.turn 0 anonymousKey, .turn 0 (.proceed ""), .turn 0 (.proceed "hk_a"), .turn 1 anonymousKey,
    .turn 1 (.proceed "")]

/-- Two creations that both count the keys before one is committed. -/
def keysAtOnce : List (Move (Fin 2) KeyTurn ApiKey) :=
  [.turn 0 anonymousKey, .turn 1 anonymousKey, .turn 0 (.proceed ""), .turn 1 (.proceed ""),
    .turn 0 (.proceed "hk_a"), .turn 1 (.proceed "hk_b")]

end Sample

/-- Of two creations one after the other, the first mints a key. -/
theorem mints_once_sample : ∃ c, (keyHandlers id "" (Fin 2)).run Sample.noKeys Sample.keysInTurn =
    some c ∧ minted c.shared ≤ 1 := by
  have hrun : ((keyHandlers id "" (Fin 2)).run Sample.noKeys Sample.keysInTurn).isSome := by decide
  obtain ⟨c, hc⟩ := Option.isSome_iff_exists.mp hrun
  exact ⟨c, hc, mints_once (fun _ ↦ rfl) (by decide) (Handlers.runs_of_allMeet hc (by decide))⟩

/-- Two creations that both count no key mint two. -/
theorem mints_twice : ∃ c, (keyHandlers id "" (Fin 2)).run Sample.noKeys Sample.keysAtOnce =
    some c ∧ minted c.shared = 2 :=
  ⟨_, rfl, by decide⟩

end Haki
