import Haki.Properties.DateHandling
import Mathlib.Data.Multiset.ZeroCons

/-!
# A date is exact or absent

A value has a range when its texts name one pair of a unit and an offset, and
an instant when it has one ISO date or else a range with a start.  Nothing
depends on where in the value the texts are.  All of this takes that no phrase
of the value has an odd letter: such a phrase is found and then not looked up,
unless two other ones keep it from being read.
-/

namespace Haki

open Control Data

variable {py : Python} {value : PyJson} {range : Option TemporalRange} {occurredAt : AwareTime}

/-- The range a unit and an offset name on the day of an event. -/
def RangeNamed (occurredAt : AwareTime) (unit : CalendarUnit) (offset : ℤ) (r : TemporalRange) :
    Prop :=
  ∃ d s e, occurredAt.OnDay d ∧ rangeFor d unit offset = .ok (s, e) ∧
    r = ⟨s.isoformat, e.isoformat⟩

/-- The instants of the ISO dates of a value. -/
def instants (py : Python) (value : PyJson) : Multiset Timestamp :=
  (stringsIn value).filterMap (instantOf py)

/-- A date that is exact or absent. -/
structure ExactOrAbsent (py : Python) (value : PyJson) (range : Option TemporalRange)
    (occurredAt : AwareTime) : Prop where
  /-- There is a range if and only if one pair is named, and it is the range of that pair. -/
  resolved : ∃ result, resolveRelativeRange py value (some occurredAt) = .ok result ∧
    ∀ r, result = some r ↔ ∃ unit offset, named py (stringsIn value) = {(unit, offset)} ∧
      RangeNamed occurredAt unit offset r
  /-- Keys, order, nesting and repetition do not matter. -/
  same_texts : ∀ value', (∀ text, text ∈ stringsIn value' ↔ text ∈ stringsIn value) →
    resolveRelativeRange py value' (some occurredAt) =
      resolveRelativeRange py value (some occurredAt)
  /-- The instant is the only one of the value, or else the start of the range. -/
  observed : ∃ result, observedAtOf py value range = .ok result ∧
    ∀ t, result = some t ↔ instants py value = {t} ∨
      (∀ t', instants py value ≠ {t'}) ∧ ∃ r ∈ range, instantOf py r.start = some t
  /-- Keys, order and nesting do not matter. -/
  same_dates : ∀ value', (stringsIn value').Perm (stringsIn value) →
    observedAtOf py value' range = observedAtOf py value range

/-- Every date is in the calendar. -/
structure WithinCalendar (py : Python) (value : PyJson) (range : Option TemporalRange)
    (occurredAt : AwareTime) : Prop where
  dates : ∀ text ∈ stringsIn value, Representable py text
  start : ∀ r ∈ range, Representable py r.start
  unit : ∀ unit offset, named py (stringsIn value) = {(unit, offset)} →
    NamesUnit occurredAt unit offset

/-! ## Ranges -/

theorem mem_named {pair : CalendarUnit × ℤ} {texts : List String} :
    pair ∈ named py texts ↔ ∃ text ∈ texts, pair ∈ pairsIn py text := by
  induction texts with
  | nil => simp [named]
  | cons text texts ih => simp [named, ih]

/-- Only which texts there are matters. -/
theorem named_congr {texts texts' : List String} (h : ∀ text, text ∈ texts' ↔ text ∈ texts) :
    named py texts' = named py texts := by
  ext pair
  simp only [mem_named, h]

theorem plainUntilTwo_of_forall {found : Finset (CalendarUnit × ℤ)} {texts : List String}
    (h : ∀ text ∈ texts, PlainlySpelled py text) : PlainUntilTwo py found texts := by
  induction texts generalizing found with
  | nil => trivial
  | cons text texts ih =>
    obtain ⟨htext, h⟩ := List.forall_mem_cons.mp h
    exact ⟨htext, fun _ ↦ ih h⟩

/-- What is resolved depends on the pairs that are named, and on the event. -/
theorem resolveRelativeRange_of_plain (h : ∀ text ∈ stringsIn value, PlainlySpelled py text) :
    (∀ pair, named py (stringsIn value) = {pair} →
      resolveRelativeRange py value (some occurredAt) = resolveFound occurredAt [pair]) ∧
    ((∀ pair, named py (stringsIn value) ≠ {pair}) →
      resolveRelativeRange py value (some occurredAt) = .ok none) := by
  have huntil : PlainUntilTwo py ([] : List (CalendarUnit × ℤ)).toFinset (stringsIn value) :=
    plainUntilTwo_of_forall h
  have := resolveTexts_of_plain occurredAt List.nodup_nil (Nat.zero_le 1) huntil
  simpa only [resolveRelativeRange, List.toFinset_nil, Finset.empty_union] using this

theorem resolveRelativeRange_congr {value' : PyJson}
    (h : ∀ text, text ∈ stringsIn value' ↔ text ∈ stringsIn value)
    (hplain : ∀ text ∈ stringsIn value, PlainlySpelled py text) :
    resolveRelativeRange py value' (some occurredAt) =
      resolveRelativeRange py value (some occurredAt) := by
  have hplain' : ∀ text ∈ stringsIn value', PlainlySpelled py text := fun text htext ↦
    hplain text ((h text).mp htext)
  have hnamed : named py (stringsIn value') = named py (stringsIn value) := named_congr h
  by_cases hone : ∃ pair, named py (stringsIn value) = {pair}
  · obtain ⟨pair, hone⟩ := hone
    rw [(resolveRelativeRange_of_plain hplain).1 pair hone,
      (resolveRelativeRange_of_plain hplain').1 pair (hnamed.trans hone)]
  · have hne : ∀ pair, named py (stringsIn value) ≠ {pair} := not_exists.mp hone
    rw [(resolveRelativeRange_of_plain hplain).2 hne,
      (resolveRelativeRange_of_plain hplain').2 (hnamed ▸ hne)]

/-- A day is determined by an event. -/
theorem AwareTime.OnDay.eq {dt : AwareTime} {d d' : Date} (h : dt.OnDay d) (h' : dt.OnDay d') :
    d = d' :=
  Date.ordinal_injective (Int.natCast_inj.mp (h.trans h'.symm))

/-- The range of the one pair. -/
theorem resolveFound_of_namesUnit {unit : CalendarUnit} {offset : ℤ}
    (h : NamesUnit occurredAt unit offset) :
    ∃ r, resolveFound occurredAt [(unit, offset)] = .ok (some r) ∧
      ∀ r', RangeNamed occurredAt unit offset r' ↔ r' = r := by
  obtain ⟨d, hd, hin⟩ := h
  obtain ⟨s, e, hrange⟩ := exists_rangeFor hin
  refine ⟨⟨s.isoformat, e.isoformat⟩, ?_, fun r' ↦ ⟨?_, ?_⟩⟩
  · exact bind_eq_ok.mpr ⟨d, utcDate_eq_ok.mpr hd, bind_eq_ok.mpr ⟨(s, e), hrange, rfl⟩⟩
  · rintro ⟨d', s', e', hd', hrange', rfl⟩
    obtain rfl := hd.eq hd'
    obtain ⟨rfl, rfl⟩ := Prod.mk.inj (Except.ok.inj (hrange.symm.trans hrange'))
    rfl
  · rintro rfl
    exact ⟨d, s, e, hd, hrange, rfl⟩

theorem resolved_of_plain (hplain : ∀ text ∈ stringsIn value, PlainlySpelled py text)
    (hunit : ∀ unit offset, named py (stringsIn value) = {(unit, offset)} →
      NamesUnit occurredAt unit offset) :
    ∃ result, resolveRelativeRange py value (some occurredAt) = .ok result ∧
      ∀ r, result = some r ↔ ∃ unit offset, named py (stringsIn value) = {(unit, offset)} ∧
        RangeNamed occurredAt unit offset r := by
  by_cases hone : ∃ pair, named py (stringsIn value) = {pair}
  · obtain ⟨⟨unit, offset⟩, hone⟩ := hone
    obtain ⟨r, hr, hnamed⟩ := resolveFound_of_namesUnit (hunit unit offset hone)
    refine ⟨some r, ((resolveRelativeRange_of_plain hplain).1 _ hone).trans hr, fun r' ↦ ⟨?_, ?_⟩⟩
    · rintro ⟨⟩
      exact ⟨unit, offset, hone, (hnamed r).mpr rfl⟩
    · rintro ⟨unit', offset', hone', hr'⟩
      obtain ⟨rfl, rfl⟩ := Prod.mk.inj (Finset.singleton_injective (hone.symm.trans hone'))
      rw [(hnamed r').mp hr']
  · refine ⟨none, (resolveRelativeRange_of_plain hplain).2 (not_exists.mp hone), fun r ↦ ?_⟩
    refine iff_of_false nofun ?_
    rintro ⟨unit, offset, hone', -⟩
    exact hone ⟨_, hone'⟩

/-! ## Instants -/

theorem instants_eq_singleton {t : Timestamp} :
    instants py value = {t} ↔ (stringsIn value).filterMap (instantOf py) = [t] :=
  Multiset.coe_eq_singleton

theorem observed_of_representable (hdates : ∀ text ∈ stringsIn value, Representable py text)
    (hstart : ∀ r ∈ range, Representable py r.start) :
    ∃ result, observedAtOf py value range = .ok result ∧
      ∀ t, result = some t ↔ instants py value = {t} ∨
        (∀ t', instants py value ≠ {t'}) ∧ ∃ r ∈ range, instantOf py r.start = some t := by
  by_cases hone : ∃ t, instants py value = {t}
  · obtain ⟨t, ht⟩ := hone
    refine ⟨some t, (observedAtOf_eq range hdates).1 t (instants_eq_singleton.mp ht), fun t' ↦ ?_⟩
    rw [Option.some_inj, ht, Multiset.singleton_inj]
    exact ⟨.inl, fun h ↦ h.resolve_right fun h ↦ h.1 t rfl⟩
  · have hne : ∀ t, instants py value ≠ {t} := not_exists.mp hone
    have hlist := (observedAtOf_eq range hdates).2 fun t ht ↦
      hne t (instants_eq_singleton.mpr ht)
    cases range with
    | none =>
      refine ⟨none, hlist, fun t ↦ iff_of_false nofun ?_⟩
      rintro (h | ⟨-, r, hr, -⟩)
      · exact hne t h
      · cases hr
    | some r =>
      rw [Option.elim_some, parseIsoInstant_of_representable (hstart r rfl)] at hlist
      refine ⟨instantOf py r.start, hlist, fun t ↦ ⟨fun h ↦ .inr ⟨hne, r, rfl, h⟩, ?_⟩⟩
      rintro (h | ⟨-, r', hr', h⟩)
      · exact absurd h (hne t)
      · cases hr'
        exact h

/-- Only how often each text is there matters. -/
theorem observedAtOf_congr {value' : PyJson} (h : (stringsIn value').Perm (stringsIn value))
    (hdates : ∀ text ∈ stringsIn value, Representable py text) :
    observedAtOf py value' range = observedAtOf py value range := by
  have hdates' : ∀ text ∈ stringsIn value', Representable py text := fun text htext ↦
    hdates text (h.mem_iff.mp htext)
  have hinstants : instants py value' = instants py value :=
    Multiset.coe_eq_coe.mpr (h.filterMap _)
  by_cases hone : ∃ t, instants py value = {t}
  · obtain ⟨t, ht⟩ := hone
    rw [(observedAtOf_eq range hdates).1 t (instants_eq_singleton.mp ht),
      (observedAtOf_eq range hdates').1 t (instants_eq_singleton.mp (hinstants.trans ht))]
  · have hne : ∀ t, instants py value ≠ {t} := not_exists.mp hone
    rw [(observedAtOf_eq range hdates).2 fun t ht ↦ hne t (instants_eq_singleton.mpr ht),
      (observedAtOf_eq range hdates').2 fun t ht ↦
        hne t (hinstants.symm.trans (instants_eq_singleton.mpr ht))]

/-! ## The property -/

theorem stringsInItems_map_str (texts : List String) :
    stringsInItems (texts.map .str) = texts := by
  induction texts with
  | nil => rfl
  | cons text texts ih => exact congrArg (text :: ·) ih

/-- A text with an odd phrase raises when it comes first. -/
theorem plain_of_same_texts {result : Option TemporalRange}
    (hresolve : resolveRelativeRange py value (some occurredAt) = .ok result)
    (h : ∀ value', (∀ text, text ∈ stringsIn value' ↔ text ∈ stringsIn value) →
      resolveRelativeRange py value' (some occurredAt) =
        resolveRelativeRange py value (some occurredAt)) :
    ∀ text ∈ stringsIn value, PlainlySpelled py text := by
  intro text htext
  have hfirst : stringsIn (.arr (.str text :: (stringsIn value).map .str)) =
      text :: stringsIn value := congrArg (text :: ·) (stringsInItems_map_str _)
  have hsame := h (.arr (.str text :: (stringsIn value).map .str)) fun text' ↦ by
    rw [hfirst, List.mem_cons]
    exact or_iff_right_of_imp fun heq ↦ heq ▸ htext
  rw [hresolve, resolveRelativeRange, hfirst] at hsame
  exact (plain_of_resolveTexts List.nodup_nil hsame).1

/-- **Exact or absent.**  In the calendar, the date of a value is exact or absent if and only if
no phrase of it has an odd letter. -/
theorem exactOrAbsent_iff (h : WithinCalendar py value range occurredAt) :
    ExactOrAbsent py value range occurredAt ↔ ∀ text ∈ stringsIn value, PlainlySpelled py text := by
  constructor
  · intro hexact
    obtain ⟨result, hresult, -⟩ := hexact.resolved
    exact plain_of_same_texts hresult hexact.same_texts
  · intro hplain
    exact {
      resolved := resolved_of_plain hplain h.unit
      same_texts := fun _ hsame ↦ resolveRelativeRange_congr hsame hplain
      observed := observed_of_representable h.dates h.start
      same_dates := fun _ hsame ↦ observedAtOf_congr hsame h.dates }

/-! ## Samples -/

theorem withinCalendar_said {text : String} (hiso : isoTime py text.toList = none)
    (hunit : ∀ unit offset, pairsIn py text = {(unit, offset)} → NamesUnit occurredAt unit offset) :
    WithinCalendar py (Sample.said text) none occurredAt where
  dates text' h := by
    rw [List.mem_singleton.mp h]
    intro dt hdt
    rw [hiso] at hdt
    cases hdt
  start := nofun
  unit unit offset h := hunit unit offset ((Finset.union_empty _).symm.trans h)

/-- A text that names the week before. -/
theorem exactOrAbsent_week :
    ExactOrAbsent Sample.python (Sample.said "I met them last week") none Sample.november ↔
      ∀ text ∈ stringsIn (Sample.said "I met them last week"), PlainlySpelled Sample.python text := by
  refine exactOrAbsent_iff (withinCalendar_said (by decide +kernel) fun unit offset h ↦ ?_)
  have hnamed : pairsIn Sample.python "I met them last week" = {(.week, -1)} := by decide +kernel
  obtain ⟨rfl, rfl⟩ := Prod.mk.inj (Finset.singleton_injective (hnamed.symm.trans h))
  exact ⟨⟨2023, 11, 30, by decide⟩, by decide, by decide⟩

/-- A phrase with a long `s` is neither exact nor absent, and whether it is read depends on what
comes before it. -/
theorem oddPhrase_raises :
    WithinCalendar Sample.python (Sample.said "la\u017ft week") none Sample.november ∧
      ¬ ExactOrAbsent Sample.python (Sample.said "la\u017ft week") none Sample.november ∧
      resolveRelativeRange Sample.python
        (.arr [.str "today or tomorrow", .str "la\u017ft week"]) (some Sample.november) =
          .ok none ∧
      resolveRelativeRange Sample.python
        (.arr [.str "la\u017ft week", .str "today or tomorrow"]) (some Sample.november) =
          .error .keyError := by
  refine ⟨withinCalendar_said (by decide +kernel) fun unit offset h ↦ ?_, fun h ↦ ?_,
    by decide +kernel, by decide +kernel⟩
  · have hnamed : pairsIn Sample.python "la\u017ft week" = ∅ := by decide +kernel
    exact absurd (hnamed.symm.trans h) (Finset.singleton_ne_empty _).symm
  · have hodd : resolveRelativeRange Sample.python (Sample.said "la\u017ft week")
        (some Sample.november) = .error .keyError := by decide +kernel
    obtain ⟨result, hresult, -⟩ := h.resolved
    cases hodd.symm.trans hresult

end Haki
