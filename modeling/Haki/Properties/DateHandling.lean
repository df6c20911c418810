import Haki.Properties.Phrases
import Mathlib.Data.Finset.Card

/-!
# When date handling returns

The ISO dates of a value are converted to UTC, and the one pair of a unit and an
offset that its texts name is turned into a range.  Both return as long as they
stay in the calendar, and a phrase is looked up as long as it has no odd letter.
Conversely each of these makes date handling raise.
-/

namespace Haki

open Control Data

variable {py : Python}

/-! ## Sets of pairs -/

section Insert

universe u

variable {α β ε : Type u} [DecidableEq β] [BEq β] [LawfulBEq β] {f : α → Except ε β} {l : List α}
  {found : List β}

/-- A loop that adds what a function returns. -/
theorem foldlM_insert (found : List β) (h : ∀ a ∈ l, ∃ b, f a = .ok b) :
    ∃ found', l.foldlM (fun found a ↦ do return found.insert (← f a)) found = .ok found' ∧
      found'.toFinset = found.toFinset ∪ (l.filterMap fun a ↦ (f a).toOption).toFinset ∧
      (found.Nodup → found'.Nodup) := by
  induction l generalizing found with
  | nil => exact ⟨found, rfl, by simp, id⟩
  | cons a l ih =>
    obtain ⟨⟨b, hb⟩, h⟩ := List.forall_mem_cons.mp h
    obtain ⟨found', hfold, hset, hnodup⟩ := ih (found.insert b) h
    refine ⟨found', ?_, ?_, fun hfound ↦ hnodup (hfound.insert)⟩
    · rw [List.foldlM_cons, hb]
      exact hfold
    · rw [hset, List.filterMap_cons, hb]
      ext x
      simp only [Finset.mem_union, List.mem_toFinset, List.mem_insert_iff, Except.toOption,
        List.mem_cons]
      tauto

omit [DecidableEq β] [LawfulBEq β] in
/-- It returns only if the function does. -/
theorem forall_of_foldlM_insert {found' : List β}
    (h : l.foldlM (fun found a ↦ do return found.insert (← f a)) found = .ok found') :
    ∀ a ∈ l, ∃ b, f a = .ok b := by
  induction l generalizing found with
  | nil => exact List.forall_mem_nil _
  | cons a l ih =>
    obtain ⟨next, hnext, hfold⟩ := foldlM_cons_eq_ok.mp h
    obtain ⟨b, hb, -⟩ := bind_eq_ok.mp hnext
    exact List.forall_mem_cons.mpr ⟨⟨b, hb⟩, ih hfold⟩

end Insert

/-- The pairs the phrases of a text name. -/
def pairsIn (py : Python) (text : String) : Finset (CalendarUnit × ℤ) :=
  (((phraseRe py).findAll text.toList).filterMap fun g ↦ (phrasePair g).toOption).toFinset ∪
    (((countedRe py).findAll text.toList).filterMap fun g ↦ (countedPair py g).toOption).toFinset

/-- The pairs the phrases of some texts name. -/
def named (py : Python) : List String → Finset (CalendarUnit × ℤ)
  | [] => ∅
  | text :: texts => pairsIn py text ∪ named py texts

/-- No phrase of the text is spelled with an odd letter. -/
def PlainlySpelled (py : Python) (text : String) : Prop :=
  ∀ g ∈ (phraseRe py).findAll text.toList, ∀ c ∈ g.text 1, c ∉ oddLetters

/-- No phrase is, in the texts that are read: a text is read as long as those before it name at
most one pair. -/
def PlainUntilTwo (py : Python) (found : Finset (CalendarUnit × ℤ)) : List String → Prop
  | [] => True
  | text :: texts => PlainlySpelled py text ∧
    ((found ∪ pairsIn py text).card ≤ 1 → PlainUntilTwo py (found ∪ pairsIn py text) texts)

section Resolve

variable {anchor : AwareTime} {found found' : List (CalendarUnit × ℤ)} {text : String}
  {texts : List String}

theorem findPairs_of_plain (found : List (CalendarUnit × ℤ)) (h : PlainlySpelled py text) :
    ∃ found', findPairs py found text.toList = .ok found' ∧
      found'.toFinset = found.toFinset ∪ pairsIn py text ∧ (found.Nodup → found'.Nodup) := by
  obtain ⟨found₁, hphrases, hset₁, hnodup₁⟩ := foldlM_insert found
    fun g hg ↦ (exists_phrasePair hg).mpr (h g hg)
  obtain ⟨found₂, hcounted, hset₂, hnodup₂⟩ := foldlM_insert found₁
    fun (g) (hg : g ∈ (countedRe py).findAll text.toList) ↦ exists_countedPair hg
  refine ⟨found₂, bind_eq_ok.mpr ⟨found₁, hphrases, hcounted⟩, ?_, hnodup₂ ∘ hnodup₁⟩
  rw [hset₂, hset₁, pairsIn, Finset.union_assoc]

theorem plain_of_findPairs (h : findPairs py found text.toList = .ok found') :
    PlainlySpelled py text := by
  obtain ⟨found₁, hphrases, -⟩ := bind_eq_ok.mp h
  exact fun g hg ↦ (exists_phrasePair hg).mp (forall_of_foldlM_insert hphrases g hg)

/-- What the loop over the texts returns, if no odd phrase is read. -/
theorem resolveTexts_of_plain (anchor : AwareTime) (hnodup : found.Nodup) (hle : found.length ≤ 1)
    (h : PlainUntilTwo py found.toFinset texts) :
    (∀ pair, found.toFinset ∪ named py texts = {pair} →
      resolveTexts py anchor found texts = resolveFound anchor [pair]) ∧
    ((∀ pair, found.toFinset ∪ named py texts ≠ {pair}) →
      resolveTexts py anchor found texts = .ok none) := by
  induction texts generalizing found with
  | nil =>
    rw [named, Finset.union_empty]
    obtain rfl | ⟨pair, rfl⟩ : found = [] ∨ ∃ pair, found = [pair] := by
      cases found with
      | nil => exact .inl rfl
      | cons pair found => exact .inr ⟨pair, by simpa using hle⟩
    · exact ⟨fun pair hpair ↦ absurd hpair (by simp), fun _ ↦ rfl⟩
    · refine ⟨fun pair' hpair ↦ ?_, fun hne ↦ absurd (by simp) (hne pair)⟩
      have : pair = pair' := by simpa using hpair
      rw [this]
      rfl
  | cons text texts ih =>
    obtain ⟨hplain, hrest⟩ := h
    obtain ⟨found', hfind, hset, hnodup'⟩ := findPairs_of_plain found hplain
    have hcard : found'.toFinset.card = found'.length :=
      List.toFinset_card_of_nodup (hnodup' hnodup)
    rw [resolveTexts, hfind, ok_bind, named, ← Finset.union_assoc, ← hset]
    split
    next htwo =>
      refine ⟨fun pair hpair ↦ ?_, fun _ ↦ rfl⟩
      have hle : found'.toFinset.card ≤ 1 := by
        rw [← Finset.card_singleton pair, ← hpair]
        exact Finset.card_le_card Finset.subset_union_left
      omega
    next hone =>
      have hone : found'.length ≤ 1 := Nat.not_lt.mp hone
      rw [← hset] at hrest
      exact ih (hnodup' hnodup) hone (hrest (by omega))

/-- An odd phrase that is read raises. -/
theorem plain_of_resolveTexts {result : Option TemporalRange} (hnodup : found.Nodup)
    (h : resolveTexts py anchor found texts = .ok result) :
    PlainUntilTwo py found.toFinset texts := by
  induction texts generalizing found with
  | nil => trivial
  | cons text texts ih =>
    obtain ⟨found', hfind, h⟩ := bind_eq_ok.mp h
    have hplain := plain_of_findPairs hfind
    obtain ⟨found'', hfind', hset, hnodup'⟩ := findPairs_of_plain found hplain
    obtain rfl := Except.ok.inj (hfind.symm.trans hfind')
    refine ⟨hplain, fun hcard ↦ ?_⟩
    rw [← hset] at hcard ⊢
    rw [List.toFinset_card_of_nodup (hnodup' hnodup)] at hcard
    rw [if_neg (Nat.not_lt.mpr hcard)] at h
    exact ih (hnodup' hnodup) h

end Resolve

/-! ## Days in UTC -/

/-- The day it is in UTC. -/
def AwareTime.OnDay (dt : AwareTime) (d : Date) : Prop :=
  (d.ordinal : ℤ) = dt.date.ordinal + (dt.time - dt.offset) / dayMicros

instance (dt : AwareTime) (d : Date) : Decidable (dt.OnDay d) :=
  inferInstanceAs (Decidable ((d.ordinal : ℤ) = _))

section Instants

variable {dt : AwareTime} {text : String} {texts : List String}

theorem utcDate_eq_ok {d : Date} : dt.utcDate = .ok d ↔ dt.OnDay d := plusDays_eq_ok

theorem exists_toUtc : (∃ t, dt.toUtc = .ok t) ↔ ∃ d, dt.OnDay d := by
  constructor
  · rintro ⟨t, ht⟩
    obtain ⟨d, hd, -⟩ := bind_eq_ok.mp ht
    exact ⟨d, utcDate_eq_ok.mp hd⟩
  · rintro ⟨d, hd⟩
    exact ⟨_, bind_eq_ok.mpr ⟨d, utcDate_eq_ok.mpr hd, rfl⟩⟩

/-- The instant of an ISO date, if it has one in the calendar. -/
def instantOf (py : Python) (text : String) : Option Timestamp :=
  (isoTime py text.toList).bind fun dt ↦ dt.toUtc.toOption

/-- The instants of an ISO date stay in the calendar. -/
def Representable (py : Python) (text : String) : Prop :=
  ∀ dt ∈ isoTime py text.toList, ∃ d, dt.OnDay d

theorem parseIsoInstant_of_representable (h : Representable py text) :
    parseIsoInstant py text = .ok (instantOf py text) := by
  rw [parseIsoInstant, instantOf]
  cases hiso : isoTime py text.toList with
  | none => rfl
  | some dt =>
    obtain ⟨t, ht⟩ := exists_toUtc.mpr (h dt hiso)
    simp only [ht, Except.map, Option.bind_some, Except.toOption]

theorem representable_of_parseIsoInstant {r : Option Timestamp}
    (h : parseIsoInstant py text = .ok r) : Representable py text := by
  intro dt hiso
  rw [Option.mem_def] at hiso
  rw [parseIsoInstant, hiso] at h
  refine exists_toUtc.mp ?_
  cases hutc : dt.toUtc with
  | error e =>
    dsimp only at h
    rw [hutc] at h
    cases h
  | ok t => exact ⟨t, rfl⟩

/-- The ISO dates of some texts. -/
def datesInTexts (py : Python) : List String → Except DateError (List Timestamp)
  | [] => .ok []
  | text :: texts => do return (← parseIsoInstant py text).toList ++ (← datesInTexts py texts)

theorem datesInTexts_append (texts texts' : List String) :
    datesInTexts py (texts ++ texts') =
      (do return (← datesInTexts py texts) ++ (← datesInTexts py texts')) := by
  induction texts with
  | nil =>
    cases h : datesInTexts py texts' <;> simp [datesInTexts, h]
  | cons text texts ih =>
    rw [List.cons_append, datesInTexts, datesInTexts, ih]
    cases parseIsoInstant py text with
    | error e => rfl
    | ok r =>
      cases datesInTexts py texts with
      | error e => rfl
      | ok ds =>
        cases datesInTexts py texts' with
        | error e => rfl
        | ok ds' => exact congrArg Except.ok (List.append_assoc _ _ _).symm

mutual

/-- The ISO dates of a value are those of its texts. -/
theorem datesIn_eq : ∀ value, datesIn py value = datesInTexts py (stringsIn value)
  | .obj entries => datesInEntries_eq entries
  | .arr items => datesInItems_eq items
  | .str s => by
    rw [datesIn, stringsIn, datesInTexts, datesInTexts]
    cases parseIsoInstant py s with
    | error e => rfl
    | ok r => exact congrArg Except.ok (List.append_nil _).symm
  | .null => rfl
  | .bool _ => rfl
  | .num _ => rfl

theorem datesInEntries_eq :
    ∀ entries, datesInEntries py entries = datesInTexts py (stringsInEntries entries)
  | [] => rfl
  | (_, item) :: entries => by
    rw [datesInEntries, stringsInEntries, datesInTexts_append, datesIn_eq item,
      datesInEntries_eq entries]

theorem datesInItems_eq :
    ∀ items, datesInItems py items = datesInTexts py (stringsInItems items)
  | [] => rfl
  | item :: items => by
    rw [datesInItems, stringsInItems, datesInTexts_append, datesIn_eq item, datesInItems_eq items]

end

theorem datesInTexts_of_representable (h : ∀ text ∈ texts, Representable py text) :
    datesInTexts py texts = .ok (texts.filterMap (instantOf py)) := by
  induction texts with
  | nil => rfl
  | cons text texts ih =>
    obtain ⟨htext, h⟩ := List.forall_mem_cons.mp h
    rw [datesInTexts, parseIsoInstant_of_representable htext, ih h, List.filterMap_cons]
    cases instantOf py text <;> rfl

theorem representable_of_datesInTexts {ds : List Timestamp} (h : datesInTexts py texts = .ok ds) :
    ∀ text ∈ texts, Representable py text := by
  induction texts generalizing ds with
  | nil => exact List.forall_mem_nil _
  | cons text texts ih =>
    obtain ⟨r, hr, h⟩ := bind_eq_ok.mp h
    obtain ⟨rest, hrest, -⟩ := bind_eq_ok.mp h
    exact List.forall_mem_cons.mpr ⟨representable_of_parseIsoInstant hr, ih hrest⟩

/-- An ISO date that stays in the calendar is an instant. -/
theorem instantOf_isSome (h : Representable py text) :
    (instantOf py text).isSome = (isoTime py text.toList).isSome := by
  rw [instantOf]
  cases hiso : isoTime py text.toList with
  | none => rfl
  | some dt =>
    obtain ⟨t, ht⟩ := exists_toUtc.mpr (h dt hiso)
    simp only [Option.bind_some, ht, Except.toOption, Option.isSome_some]

end Instants

/-! ## The three functions -/

section Handled

variable {value : PyJson} {range : Option TemporalRange} {occurredAt : AwareTime}

/-- How many ISO dates a value has. -/
def isoCount (py : Python) (value : PyJson) : ℕ :=
  (stringsIn value).countP fun text ↦ (isoTime py text.toList).isSome

theorem length_instants (h : ∀ text ∈ stringsIn value, Representable py text) :
    ((stringsIn value).filterMap (instantOf py)).length = isoCount py value := by
  rw [isoCount, List.length_filterMap_eq_countP]
  exact List.countP_congr fun text htext ↦ by rw [instantOf_isSome (h text htext)]

theorem exists_datesIn : (∃ ds, datesIn py value = .ok ds) ↔
    ∀ text ∈ stringsIn value, Representable py text := by
  rw [datesIn_eq]
  exact ⟨fun ⟨ds, h⟩ ↦ representable_of_datesInTexts h,
    fun h ↦ ⟨_, datesInTexts_of_representable h⟩⟩

/-- The range's start is only parsed where the value has not exactly one date. -/
theorem observedAtOf_eq (range : Option TemporalRange)
    (h : ∀ text ∈ stringsIn value, Representable py text) :
    (∀ t, (stringsIn value).filterMap (instantOf py) = [t] →
      observedAtOf py value range = .ok (some t)) ∧
    ((∀ t, (stringsIn value).filterMap (instantOf py) ≠ [t]) →
      observedAtOf py value range =
        range.elim (.ok none) fun r ↦ parseIsoInstant py r.start) := by
  unfold observedAtOf
  rw [datesIn_eq, datesInTexts_of_representable h, ok_bind]
  refine ⟨fun t ht ↦ by rw [ht]; rfl, fun hne ↦ ?_⟩
  split
  next t ht => exact absurd ht (hne t)
  next =>
    cases range with
    | none => rfl
    | some r => rw [Option.elim_some]

theorem exists_observedAtOf : (∃ t, observedAtOf py value range = .ok t) ↔
    (∀ text ∈ stringsIn value, Representable py text) ∧
      (isoCount py value ≠ 1 → ∀ r ∈ range, Representable py r.start) := by
  constructor
  · rintro ⟨t, h⟩
    have hdates : ∃ ds, datesIn py value = .ok ds := by
      unfold observedAtOf at h
      obtain ⟨ds, hds, -⟩ := bind_eq_ok.mp h
      exact ⟨ds, hds⟩
    have hrep := exists_datesIn.mp hdates
    refine ⟨hrep, fun hcount r hr ↦ ?_⟩
    rw [(observedAtOf_eq range hrep).2 fun t' ht' ↦ hcount ?_, Option.mem_def.mp hr,
      Option.elim_some] at h
    · exact representable_of_parseIsoInstant h
    · rw [← length_instants hrep, ht', List.length_singleton]
  · rintro ⟨hrep, hstart⟩
    by_cases hone : ∃ t, (stringsIn value).filterMap (instantOf py) = [t]
    · obtain ⟨t, ht⟩ := hone
      exact ⟨some t, (observedAtOf_eq range hrep).1 t ht⟩
    · have hne : ∀ t, (stringsIn value).filterMap (instantOf py) ≠ [t] := not_exists.mp hone
      rw [(observedAtOf_eq range hrep).2 hne]
      cases range with
      | none => exact ⟨none, rfl⟩
      | some r =>
        have hcount : isoCount py value ≠ 1 := fun hcount ↦
          hone (List.length_eq_one_iff.mp ((length_instants hrep).trans hcount))
        rw [Option.elim_some]
        exact ⟨_, parseIsoInstant_of_representable (hstart hcount r rfl)⟩

/-- The unit so many units away from the one of the day of an event stays in the calendar. -/
def NamesUnit (occurredAt : AwareTime) (unit : CalendarUnit) (offset : ℤ) : Prop :=
  ∃ d, occurredAt.OnDay d ∧ unit.InCalendar (unit.index d + offset)

theorem exists_resolveFound {unit : CalendarUnit} {offset : ℤ} :
    (∃ r, resolveFound occurredAt [(unit, offset)] = .ok r) ↔
      NamesUnit occurredAt unit offset := by
  constructor
  · rintro ⟨r, h⟩
    obtain ⟨d, hd, h⟩ := bind_eq_ok.mp h
    obtain ⟨⟨s, e⟩, hrange, -⟩ := bind_eq_ok.mp h
    exact ⟨d, utcDate_eq_ok.mp hd, (rangeFor_isBlock hrange).1⟩
  · rintro ⟨d, hd, hin⟩
    obtain ⟨s, e, hrange⟩ := exists_rangeFor hin
    exact ⟨_, bind_eq_ok.mpr ⟨d, utcDate_eq_ok.mpr hd, bind_eq_ok.mpr ⟨(s, e), hrange, rfl⟩⟩⟩

theorem exists_resolveRelativeRange :
    (∃ r, resolveRelativeRange py value (some occurredAt) = .ok r) ↔
      PlainUntilTwo py ∅ (stringsIn value) ∧
        ∀ unit offset, named py (stringsIn value) = {(unit, offset)} →
          NamesUnit occurredAt unit offset := by
  have hresolve (h : PlainUntilTwo py ∅ (stringsIn value)) :=
    resolveTexts_of_plain occurredAt List.nodup_nil (Nat.zero_le 1) h
  simp only [List.toFinset_nil, Finset.empty_union] at hresolve
  constructor
  · rintro ⟨r, h⟩
    have hplain : PlainUntilTwo py ∅ (stringsIn value) :=
      plain_of_resolveTexts List.nodup_nil h
    refine ⟨hplain, fun unit offset hone ↦ exists_resolveFound.mp ⟨r, ?_⟩⟩
    rw [← (hresolve hplain).1 _ hone]
    exact h
  · rintro ⟨hplain, hunit⟩
    by_cases hone : ∃ pair, named py (stringsIn value) = {pair}
    · obtain ⟨⟨unit, offset⟩, hone⟩ := hone
      obtain ⟨r, hr⟩ := exists_resolveFound.mpr (hunit unit offset hone)
      exact ⟨r, ((hresolve hplain).1 _ hone).trans hr⟩
    · exact ⟨none, (hresolve hplain).2 (not_exists.mp hone)⟩

/-- Date handling returns. -/
structure DatesReturn (py : Python) (value : PyJson) (range : Option TemporalRange)
    (occurredAt : AwareTime) : Prop where
  dates : ∃ ds, datesIn py value = .ok ds
  resolved : ∃ r, resolveRelativeRange py value (some occurredAt) = .ok r
  observed : ∃ t, observedAtOf py value range = .ok t

/-- What date handling needs. -/
structure DatesHandled (py : Python) (value : PyJson) (range : Option TemporalRange)
    (occurredAt : AwareTime) : Prop where
  /-- The ISO dates of the value have a date in UTC. -/
  dates : ∀ text ∈ stringsIn value, Representable py text
  /-- So has the start of the range, where it is needed. -/
  start : isoCount py value ≠ 1 → ∀ r ∈ range, Representable py r.start
  /-- No phrase that is read has an odd letter. -/
  phrases : PlainUntilTwo py ∅ (stringsIn value)
  /-- The event has a date in UTC, and the unit the value names from there is in the calendar. -/
  unit : ∀ unit offset, named py (stringsIn value) = {(unit, offset)} →
    NamesUnit occurredAt unit offset

/-- **Date handling returns** exactly when every date it computes is in the calendar, and every
phrase it looks up is spelled in ASCII. -/
theorem datesReturn_iff (py : Python) (value : PyJson) (range : Option TemporalRange)
    (occurredAt : AwareTime) :
    DatesReturn py value range occurredAt ↔ DatesHandled py value range occurredAt := by
  constructor
  · rintro ⟨hdates, hrange, hobserved⟩
    obtain ⟨hphrases, hunit⟩ := exists_resolveRelativeRange.mp hrange
    exact ⟨exists_datesIn.mp hdates, (exists_observedAtOf.mp hobserved).2, hphrases, hunit⟩
  · rintro ⟨hdates, hstart, hphrases, hunit⟩
    exact ⟨exists_datesIn.mpr hdates, exists_resolveRelativeRange.mpr ⟨hphrases, hunit⟩,
      exists_observedAtOf.mpr ⟨hdates, hstart⟩⟩

end Handled

/-! ## Samples -/

namespace Sample

/-- An interpreter that knows the digits and letters in ASCII and the letters that match them. -/
def python : Python where
  decimal c := if c.isDigit then some (Fin.ofNat 10 (c.toNat - 48)) else none
  isAlnum c := c.isAlphanum || c ∈ oddLetters || c = '\u212a'
  minuteFraction := true

/-- The noon of a day, in UTC. -/
def noon (d : Date) : AwareTime := ⟨d, 43200000000, 0⟩

def november : AwareTime := noon ⟨2023, 11, 30, by decide⟩

/-- A value with one text. -/
def said (text : String) : PyJson := .obj [("when", .str text)]

end Sample

example : resolveRelativeRange Sample.python (Sample.said "I met them last week")
    (some Sample.november) = .ok (some ⟨"2023-11-20", "2023-11-26"⟩) := by
  decide +kernel

/-- A midnight that is in no year in UTC, a long `s`, and the day before the first. -/
theorem dates_raise :
    ¬ DatesReturn Sample.python (Sample.said "0001-01-01T00:00:00+01:00") none Sample.november ∧
      ¬ DatesReturn Sample.python (Sample.said "la\u017ft week") none Sample.november ∧
      ¬ DatesReturn Sample.python (Sample.said "yesterday") none
        (Sample.noon ⟨1, 1, 1, by decide⟩) := by
  have hoffset : datesIn Sample.python (Sample.said "0001-01-01T00:00:00+01:00") =
      .error .overflowError := by decide +kernel
  have hodd : resolveRelativeRange Sample.python (Sample.said "la\u017ft week")
      (some Sample.november) = .error .keyError := by decide +kernel
  have hfirst : resolveRelativeRange Sample.python (Sample.said "yesterday")
      (some (Sample.noon ⟨1, 1, 1, by decide⟩)) = .error .overflowError := by decide +kernel
  refine ⟨fun h ↦ ?_, fun h ↦ ?_, fun h ↦ ?_⟩
  · obtain ⟨ds, hds⟩ := h.dates
    cases hoffset.symm.trans hds
  · obtain ⟨r, hr⟩ := h.resolved
    cases hodd.symm.trans hr
  · obtain ⟨r, hr⟩ := h.resolved
    cases hfirst.symm.trans hr

end Haki
