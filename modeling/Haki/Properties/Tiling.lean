import Haki.Consolidator.Ranges

/-!
# Ranges tile the calendar

The range of a relative expression is the calendar's own unit: with the date
that anchors it go all dates of its unit, the units follow each other without a
gap, and each goes from its first date to its last.
-/

namespace Haki

open Control Data

variable {anchor s e : Date} {unit : CalendarUnit} {offset : ℤ}

/-- What a range from `s` to `e` has to be. -/
structure IsRange (anchor : Date) (unit : CalendarUnit) (offset : ℤ) (s e : Date) : Prop where
  start_le : s ≤ e
  /-- It has the dates of the unit so many units away, and no other. -/
  block : IsBlock unit.index (unit.index anchor + offset) s e
  monday_to_sunday : unit = .week → s.weekday = 0 ∧ e.weekday = 6
  /-- The next range starts the day after it ends. -/
  next : ∀ s' e', rangeFor anchor unit (offset + 1) = .ok (s', e') → e.plusDays 1 = .ok s'
  /-- Any other date of the unit anchors the same range. -/
  same_unit : ∀ anchor', unit.index anchor' = unit.index anchor →
    rangeFor anchor' unit offset = .ok (s, e)

/-- The range is determined by the number of the unit. -/
theorem rangeFor_eq_of_index {anchor' : Date} (h : rangeFor anchor unit offset = .ok (s, e))
    (hindex : unit.index anchor' = unit.index anchor) :
    rangeFor anchor' unit offset = .ok (s, e) := by
  obtain ⟨hin, hle, hblock⟩ := rangeFor_isBlock h
  rw [← hindex] at hin hblock
  obtain ⟨s', e', h'⟩ := exists_rangeFor hin
  obtain ⟨-, hle', hblock'⟩ := rangeFor_isBlock h'
  obtain ⟨rfl, rfl⟩ := hblock.eq hblock' hle hle'
  exact h'

/-- Nothing comes between a range and the next. -/
theorem rangeFor_next {s' e' : Date} (h : rangeFor anchor unit offset = .ok (s, e))
    (h' : rangeFor anchor unit (offset + 1) = .ok (s', e')) : e.plusDays 1 = .ok s' := by
  obtain ⟨-, hle, hblock⟩ := rangeFor_isBlock h
  obtain ⟨-, hle', hblock'⟩ := rangeFor_isBlock h'
  rw [← add_assoc] at hblock'
  have hnext : e ⋖ s' := hblock.covBy unit.monotone_index hblock' hle hle'
  exact orDateError_eq_ok.mpr (Date.addDays_one_of_covBy hnext)

/-- A week starts on the Monday of the date it is counted from. -/
theorem rangeFor_week (h : rangeFor anchor .week offset = .ok (s, e)) :
    s.weekday = 0 ∧ e.weekday = 6 := by
  obtain ⟨hs, he⟩ := ordinals_of_week h
  simp only [Date.weekday]
  omega

/-- **Ranges tile the calendar.**  For every date and every unit that stays in the calendar, the
range is that unit. -/
theorem rangeFor_isRange (anchor : Date) (unit : CalendarUnit) (offset : ℤ)
    (h : unit.InCalendar (unit.index anchor + offset)) :
    ∃ s e, rangeFor anchor unit offset = .ok (s, e) ∧ IsRange anchor unit offset s e := by
  obtain ⟨s, e, hrange⟩ := exists_rangeFor h
  obtain ⟨-, hle, hblock⟩ := rangeFor_isBlock hrange
  refine ⟨s, e, hrange, hle, hblock, ?_, fun s' e' ↦ rangeFor_next hrange,
    fun anchor' ↦ rangeFor_eq_of_index hrange⟩
  rintro rfl
  exact rangeFor_week hrange

/-- The month after the one of the last of January in a leap year. -/
theorem rangeFor_february :
    ∃ s e, rangeFor ⟨2024, 1, 31, by decide⟩ .month 1 = .ok (s, e) ∧
      IsRange ⟨2024, 1, 31, by decide⟩ .month 1 s e :=
  rangeFor_isRange ⟨2024, 1, 31, by decide⟩ .month 1 (by decide)

example : rangeFor ⟨2024, 1, 31, by decide⟩ .month 1 =
    .ok (⟨2024, 2, 1, by decide⟩, ⟨2024, 2, 29, by decide⟩) := by
  decide

end Haki
