import Haki.Control.Fold
import Haki.Data.Calendar

/-!
# The range of a relative expression

`_add_months` and `_range_for`: the day, week, month or year so many units away
from the one of a date, from its first date to its last one.  A range that
leaves the calendar raises.
-/

namespace Haki

open Control Data

/-- What the date library raises, and a dictionary on a key it does not have. -/
inductive DateError where
  | valueError
  | overflowError
  | keyError
deriving DecidableEq, Repr

/-- The value of a call, or what it raises. -/
def orDateError {α : Type} (e : DateError) : Option α → Except DateError α
  | some a => .ok a
  | none => .error e

theorem orDateError_eq_ok {α : Type} {e : DateError} {x : Option α} {a : α} :
    orDateError e x = .ok a ↔ x = some a := by
  cases x <;> simp [orDateError]

/-- `date(year, month, day)`. -/
def newDate (year : ℤ) (month day : ℕ) : Except DateError Date :=
  orDateError .valueError (date? year month day)

/-- `anchor + timedelta(days=days)`. -/
def Data.Date.plusDays (anchor : Date) (days : ℤ) : Except DateError Date :=
  orDateError .overflowError (anchor.addDays days)

/-- `anchor.replace(day=day)`. -/
def Data.Date.replaceDay (anchor : Date) (day : ℕ) : Except DateError Date :=
  newDate anchor.year anchor.month day

/-- `_add_months`. -/
def addMonths (anchor : Date) (months : ℤ) : Except DateError Date :=
  let total : ℤ := anchor.year * 12 + (anchor.month - 1) + months
  let year := total / 12
  let month := (total % 12).toNat
  newDate year (month + 1) (min anchor.day (daysInMonth year.toNat (month + 1)))

/-- `_range_for`. -/
def rangeFor (anchor : Date) (unit : CalendarUnit) (offset : ℤ) : Except DateError (Date × Date) :=
  match unit with
  | .day => do
    let moved ← anchor.plusDays offset
    return (moved, moved)
  | .week => do
    let moved ← anchor.plusDays (7 * offset)
    let start ← moved.plusDays (-moved.weekday)
    return (start, ← start.plusDays 6)
  | .month => do
    let moved ← addMonths anchor offset
    return (← moved.replaceDay 1, ← moved.replaceDay (daysInMonth moved.year moved.month))
  | .year => do
    let moved ← newDate (anchor.year + offset) 1 1
    return (moved, ← newDate moved.year 12 31)

/-! ## The date library -/

section Library

variable {anchor d : Date} {days : ℤ} {year : ℤ} {month day : ℕ}

theorem newDate_eq_ok :
    newDate year month day = .ok d ↔ year = d.year ∧ month = d.month ∧ day = d.day := by
  rw [newDate, orDateError_eq_ok, date?_eq_some_iff]

theorem plusDays_eq_ok :
    anchor.plusDays days = .ok d ↔ (d.ordinal : ℤ) = anchor.ordinal + days := by
  rw [Date.plusDays, orDateError_eq_ok, Date.addDays_eq_some_iff]

theorem exists_plusDays (anchor : Date) (days : ℤ) (h : 1 ≤ (anchor.ordinal : ℤ) + days)
    (h' : (anchor.ordinal : ℤ) + days ≤ Date.maxOrdinal) : ∃ d, anchor.plusDays days = .ok d := by
  obtain ⟨d, hd⟩ := Date.exists_addDays.mpr ⟨h, h'⟩
  exact ⟨d, orDateError_eq_ok.mpr hd⟩

theorem replaceDay_eq_ok : anchor.replaceDay day = .ok d ↔
    (anchor.year : ℤ) = d.year ∧ anchor.month = d.month ∧ day = d.day := newDate_eq_ok

theorem exists_newDate (year : ℤ) (month day : ℕ) (h : IsDate year.toNat month day) :
    ∃ d, newDate year month day = .ok d := by
  refine ⟨⟨year.toNat, month, day, h⟩, newDate_eq_ok.mpr ⟨?_, rfl, rfl⟩⟩
  have := h.1
  simp only
  omega

end Library

/-! ## What a range covers -/

section Range

variable {anchor s e : Date} {offset : ℤ}

/-- Months are counted from the first of the calendar. -/
theorem addMonths_eq_ok {d : Date} (h : addMonths anchor offset = .ok d) :
    CalendarUnit.month.index d = CalendarUnit.month.index anchor + offset := by
  obtain ⟨hyear, hmonth, -⟩ := newDate_eq_ok.mp h
  simp only [CalendarUnit.index]
  omega

theorem exists_addMonths
    (h : CalendarUnit.month.InCalendar (CalendarUnit.month.index anchor + offset)) :
    ∃ d, addMonths anchor offset = .ok d := by
  obtain ⟨hlow, hhigh⟩ := h
  simp only [CalendarUnit.index] at hlow hhigh
  refine exists_newDate _ _ _ ⟨by omega, by omega, ?_, min_le_right _ _⟩
  have hday := anchor.day_mem.1
  have hlength := daysInMonth_pos ((anchor.year * 12 + (anchor.month - 1) + offset) / 12).toNat
    (m := ((anchor.year * 12 + (anchor.month - 1 : ℤ) + offset) % 12).toNat + 1) (by omega)
  exact le_min hday hlength

/-! ### The dates of each unit -/

theorem ordinal_of_day (h : rangeFor anchor .day offset = .ok (s, e)) :
    (s.ordinal : ℤ) = anchor.ordinal + offset ∧ s = e := by
  obtain ⟨moved, hmoved, ⟨⟩⟩ := bind_eq_ok.mp h
  exact ⟨plusDays_eq_ok.mp hmoved, rfl⟩

/-- A week goes from its Monday to its Sunday. -/
theorem ordinals_of_week (h : rangeFor anchor .week offset = .ok (s, e)) :
    (s.ordinal : ℤ) = 7 * (CalendarUnit.week.index anchor + offset) + 1 ∧
      (e.ordinal : ℤ) = 7 * (CalendarUnit.week.index anchor + offset) + 7 := by
  obtain ⟨moved, hmoved, h⟩ := bind_eq_ok.mp h
  obtain ⟨start, hstart, h⟩ := bind_eq_ok.mp h
  obtain ⟨last, hlast, ⟨⟩⟩ := bind_eq_ok.mp h
  have hordinal := plusDays_eq_ok.mp hmoved
  have hmonday := plusDays_eq_ok.mp hstart
  have hsunday := plusDays_eq_ok.mp hlast
  have hmem := moved.ordinal_mem
  simp only [Date.weekday] at hmonday
  simp only [CalendarUnit.index]
  omega

/-- A month goes from its first date to its last. -/
theorem fields_of_month (h : rangeFor anchor .month offset = .ok (s, e)) :
    CalendarUnit.month.index s = CalendarUnit.month.index anchor + offset ∧ s.day = 1 ∧
      e.year = s.year ∧ e.month = s.month ∧ e.day = daysInMonth s.year s.month := by
  obtain ⟨moved, hmoved, h⟩ := bind_eq_ok.mp h
  obtain ⟨first, hfirst, h⟩ := bind_eq_ok.mp h
  obtain ⟨last, hlast, ⟨⟩⟩ := bind_eq_ok.mp h
  obtain ⟨hsyear, hsmonth, hsday⟩ := replaceDay_eq_ok.mp hfirst
  obtain ⟨heyear, hemonth, heday⟩ := replaceDay_eq_ok.mp hlast
  have hyear : moved.year = s.year := Int.ofNat.inj hsyear
  rw [hyear, hsmonth] at heday
  refine ⟨?_, hsday.symm, ?_, ?_, heday.symm⟩
  · rw [← addMonths_eq_ok hmoved]
    simp only [CalendarUnit.index, hyear, hsmonth]
  · exact Int.ofNat.inj (heyear.symm.trans hsyear)
  · exact hemonth.symm.trans hsmonth

/-- A year goes from its first date to its last. -/
theorem fields_of_year (h : rangeFor anchor .year offset = .ok (s, e)) :
    CalendarUnit.year.index s = CalendarUnit.year.index anchor + offset ∧
      (s.month = 1 ∧ s.day = 1) ∧ e.year = s.year ∧ e.month = 12 ∧ e.day = 31 := by
  obtain ⟨moved, hmoved, h⟩ := bind_eq_ok.mp h
  obtain ⟨last, hlast, ⟨⟩⟩ := bind_eq_ok.mp h
  obtain ⟨hsyear, hsmonth, hsday⟩ := newDate_eq_ok.mp hmoved
  obtain ⟨heyear, hemonth, heday⟩ := newDate_eq_ok.mp hlast
  exact ⟨hsyear.symm, ⟨hsmonth.symm, hsday.symm⟩, (Int.ofNat.inj heyear).symm, hemonth.symm,
    heday.symm⟩

/-! ### These dates are a block -/

/-- The dates between two ordinals. -/
theorem between_iff {d : Date} : s ≤ d ∧ d ≤ e ↔ s.ordinal ≤ d.ordinal ∧ d.ordinal ≤ e.ordinal :=
  and_congr Date.ordinal_le_ordinal.symm Date.ordinal_le_ordinal.symm

theorem isBlock_day (s : Date) : IsBlock CalendarUnit.day.index (CalendarUnit.day.index s) s s := by
  intro d
  rw [between_iff]
  simp only [CalendarUnit.index]
  omega

/-- The week that starts on the Monday `s`. -/
theorem isBlock_week {k : ℤ} (hs : (s.ordinal : ℤ) = 7 * k + 1) (he : (e.ordinal : ℤ) = 7 * k + 7) :
    IsBlock CalendarUnit.week.index k s e := by
  intro d
  rw [between_iff]
  simp only [CalendarUnit.index]
  omega

/-- The month of the dates `s` and `e`, its first and its last. -/
theorem isBlock_month (hs : s.day = 1)
    (he : e.year = s.year ∧ e.month = s.month ∧ e.day = daysInMonth s.year s.month) :
    IsBlock CalendarUnit.month.index (CalendarUnit.month.index s) s e := by
  obtain ⟨hyear, hmonth, hlast⟩ := he
  intro d
  have hmem := d.month_mem
  have hsmem := s.month_mem
  rw [Date.le_iff, Date.le_iff, hyear, hmonth, hlast, hs]
  simp only [CalendarUnit.index]
  constructor
  · rintro ⟨hlow, hhigh⟩
    omega
  · intro hindex
    obtain ⟨hy, hm⟩ : d.year = s.year ∧ d.month = s.month := by omega
    have hday := d.day_mem
    rw [hy, hm] at hday
    exact ⟨.inr ⟨hy.symm, .inr ⟨hm.symm, hday.1⟩⟩, .inr ⟨hy, .inr ⟨hm, hday.2⟩⟩⟩

/-- The year of the dates `s` and `e`, its first and its last. -/
theorem isBlock_year (hs : s.month = 1 ∧ s.day = 1)
    (he : e.year = s.year ∧ e.month = 12 ∧ e.day = 31) :
    IsBlock CalendarUnit.year.index (CalendarUnit.year.index s) s e := by
  obtain ⟨hsmonth, hsday⟩ := hs
  obtain ⟨hyear, hemonth, heday⟩ := he
  intro d
  have hmem := d.month_mem
  have hday := d.day_mem
  have hlast : d.month = 12 → d.day ≤ 31 := by
    intro h
    rw [h] at hday
    exact hday.2
  rw [Date.le_iff, Date.le_iff, hsmonth, hsday, hyear, hemonth, heday]
  simp only [CalendarUnit.index]
  omega

/-- What `_range_for` returns is the unit so many units away. -/
theorem rangeFor_isBlock {unit : CalendarUnit} (h : rangeFor anchor unit offset = .ok (s, e)) :
    unit.InCalendar (unit.index anchor + offset) ∧ s ≤ e ∧
      IsBlock unit.index (unit.index anchor + offset) s e := by
  suffices hunit : unit.index s = unit.index anchor + offset ∧
      unit.InCalendar (unit.index anchor + offset) ∧
      IsBlock unit.index (unit.index anchor + offset) s e by
    obtain ⟨hindex, hin, hblock⟩ := hunit
    exact ⟨hin, hblock.le hindex, hblock⟩
  cases unit with
  | day =>
    obtain ⟨hindex, rfl⟩ := ordinal_of_day h
    change CalendarUnit.day.index s = CalendarUnit.day.index anchor + offset at hindex
    rw [← hindex]
    exact ⟨rfl, CalendarUnit.inCalendar_index s (by decide), isBlock_day s⟩
  | week =>
    -- the last week of the calendar is not whole
    obtain ⟨hs, he⟩ := ordinals_of_week h
    have hsmem := s.ordinal_mem
    have hemem := e.ordinal_mem
    refine ⟨?_, ⟨by omega, by omega⟩, isBlock_week hs he⟩
    rw [CalendarUnit.index, hs]
    omega
  | month =>
    obtain ⟨hindex, hs, he⟩ := fields_of_month h
    rw [← hindex]
    exact ⟨rfl, CalendarUnit.inCalendar_index s (by decide), isBlock_month hs he⟩
  | year =>
    obtain ⟨hindex, hs, he⟩ := fields_of_year h
    rw [← hindex]
    exact ⟨rfl, CalendarUnit.inCalendar_index s (by decide), isBlock_year hs he⟩

/-- `_range_for` raises on no unit of the calendar. -/
theorem exists_rangeFor {unit : CalendarUnit}
    (h : unit.InCalendar (unit.index anchor + offset)) :
    ∃ s e, rangeFor anchor unit offset = .ok (s, e) := by
  cases unit with
  | day =>
    obtain ⟨moved, hmoved⟩ := exists_plusDays anchor offset h.1 h.2
    exact ⟨moved, moved, bind_eq_ok.mpr ⟨moved, hmoved, rfl⟩⟩
  | week =>
    obtain ⟨hlow, hhigh⟩ := h
    simp only [CalendarUnit.index] at hlow hhigh
    obtain ⟨moved, hmoved⟩ := exists_plusDays anchor (7 * offset) (by omega)
      (by omega)
    have hordinal := plusDays_eq_ok.mp hmoved
    have hweekday : moved.weekday = (moved.ordinal + 6) % 7 := rfl
    obtain ⟨start, hstart⟩ := exists_plusDays moved (-moved.weekday) (by omega)
      (by omega)
    have hmonday := plusDays_eq_ok.mp hstart
    obtain ⟨last, hlast⟩ := exists_plusDays start 6 (by omega) (by omega)
    exact ⟨start, last, bind_eq_ok.mpr ⟨moved, hmoved, bind_eq_ok.mpr ⟨start, hstart,
      bind_eq_ok.mpr ⟨last, hlast, rfl⟩⟩⟩⟩
  | month =>
    obtain ⟨moved, hmoved⟩ := exists_addMonths h
    have hlength := daysInMonth_pos moved.year moved.month_mem
    obtain ⟨first, hfirst⟩ := exists_newDate moved.year moved.month 1
      ⟨moved.year_mem, moved.month_mem, le_rfl, hlength⟩
    obtain ⟨last, hlast⟩ := exists_newDate moved.year moved.month _
      ⟨moved.year_mem, moved.month_mem, hlength, le_rfl⟩
    exact ⟨first, last, bind_eq_ok.mpr ⟨moved, hmoved, bind_eq_ok.mpr ⟨first, hfirst,
      bind_eq_ok.mpr ⟨last, hlast, rfl⟩⟩⟩⟩
  | year =>
    obtain ⟨hlow, hhigh⟩ := h
    simp only [CalendarUnit.index] at hlow hhigh
    obtain ⟨moved, hmoved⟩ := exists_newDate (anchor.year + offset) 1 1
      ⟨by omega, by omega, by simp [daysInMonth]⟩
    obtain ⟨last, hlast⟩ := exists_newDate moved.year 12 31
      ⟨moved.year_mem, by omega, by simp [daysInMonth]⟩
    exact ⟨moved, last, bind_eq_ok.mpr ⟨moved, hmoved, bind_eq_ok.mpr ⟨last, hlast, rfl⟩⟩⟩

end Range

end Haki
