import Mathlib.Data.Int.ConditionallyCompleteOrder
import Mathlib.Data.Nat.Find
import Mathlib.Data.Prod.Lex
import Mathlib.Order.Cover
import Mathlib.Tactic.Common
import Mathlib.Tactic.IntervalCases

/-!
# The Gregorian calendar

The dates from the years 1 to 9999, in the order of their fields, and their
ordinals: 1 is the first of January of the year 1, a Monday.  Every ordinal of
the calendar is one of exactly one date, and the order of dates is that of
their ordinals.

Days, weeks, months and years are numbered by functions on dates that never
decrease, so that each of them is a run of dates without a gap, and a next one
begins where it ends.
-/

namespace Haki.Data

/-! ## Blocks of a linear order -/

section Blocks

variable {α : Type*} [LinearOrder α] {index : α → ℤ} {k : ℤ} {s e s' e' : α}

/-- The block numbered `k` goes from `s` to `e`. -/
def IsBlock (index : α → ℤ) (k : ℤ) (s e : α) : Prop := ∀ d, s ≤ d ∧ d ≤ e ↔ index d = k

theorem IsBlock.index_start (h : IsBlock index k s e) (hle : s ≤ e) : index s = k :=
  (h s).mp ⟨le_rfl, hle⟩

theorem IsBlock.index_end (h : IsBlock index k s e) (hle : s ≤ e) : index e = k :=
  (h e).mp ⟨hle, le_rfl⟩

/-- A block that has its start is not empty. -/
theorem IsBlock.le (h : IsBlock index k s e) (hs : index s = k) : s ≤ e := ((h s).mpr hs).2

/-- The ends of a block are determined by its number. -/
theorem IsBlock.eq (h : IsBlock index k s e) (h' : IsBlock index k s' e') (hle : s ≤ e)
    (hle' : s' ≤ e') : s = s' ∧ e = e' := by
  have hs' : s ≤ s' ∧ s' ≤ e := (h s').mpr (h'.index_start hle')
  have he' : s ≤ e' ∧ e' ≤ e := (h e').mpr (h'.index_end hle')
  have hs : s' ≤ s ∧ s ≤ e' := (h' s).mpr (h.index_start hle)
  have he : s' ≤ e ∧ e ≤ e' := (h' e).mpr (h.index_end hle)
  exact ⟨le_antisymm hs'.1 hs.1, le_antisymm he.2 he'.2⟩

/-- Two blocks in a row leave no gap. -/
theorem IsBlock.covBy (hmono : Monotone index) (h : IsBlock index k s e)
    (h' : IsBlock index (k + 1) s' e') (hle : s ≤ e) (hle' : s' ≤ e') : e ⋖ s' := by
  have hend : index e = k := h.index_end hle
  have hstart : index s' = k + 1 := h'.index_start hle'
  refine ⟨?_, ?_⟩
  · by_contra hlt
    have : index s' ≤ index e := hmono (not_lt.mp hlt)
    omega
  · intro d hed hds
    have hlow : index e ≤ index d := hmono hed.le
    have hhigh : index d ≤ index s' := hmono hds.le
    rcases (by omega : index d = k ∨ index d = k + 1) with hd | hd
    · exact absurd hed (((h d).mpr hd).2).not_gt
    · exact absurd hds (((h' d).mpr hd).1).not_gt

end Blocks

/-! ## Months and years -/

def IsLeap (y : ℕ) : Prop := y % 4 = 0 ∧ (y % 100 ≠ 0 ∨ y % 400 = 0)

instance : DecidablePred IsLeap := fun _ ↦ inferInstanceAs (Decidable (_ ∧ _))

/-- The length of a month. -/
def daysInMonth (y : ℕ) : ℕ → ℕ
  | 1 | 3 | 5 | 7 | 8 | 10 | 12 => 31
  | 4 | 6 | 9 | 11 => 30
  | 2 => if IsLeap y then 29 else 28
  | _ => 0

/-- The days of a year before a month of it. -/
def daysBeforeMonth (y : ℕ) : ℕ → ℕ
  | 0 => 0
  | m + 1 => daysBeforeMonth y m + daysInMonth y m

/-- The days before a year. -/
def daysBeforeYear (y : ℕ) : ℕ := 365 * (y - 1) + (y - 1) / 4 - (y - 1) / 100 + (y - 1) / 400

theorem daysBeforeMonth_succ (y m : ℕ) :
    daysBeforeMonth y (m + 1) = daysBeforeMonth y m + daysInMonth y m := rfl

theorem monotone_daysBeforeMonth (y : ℕ) : Monotone (daysBeforeMonth y) :=
  monotone_nat_of_le_succ fun _ ↦ Nat.le_add_right _ _

/-- The length of a year. -/
theorem daysBeforeMonth_thirteen (y : ℕ) :
    daysBeforeMonth y 13 = if IsLeap y then 366 else 365 := by
  simp only [daysBeforeMonth, daysInMonth]
  split <;> rfl

theorem daysBeforeYear_succ {y : ℕ} (hy : 1 ≤ y) :
    daysBeforeYear (y + 1) = daysBeforeYear y + daysBeforeMonth y 13 := by
  obtain ⟨x, rfl⟩ := Nat.exists_eq_add_of_le' hy
  have hcentury : x / 100 ≤ x / 4 := Nat.div_le_div_left (by omega) (by omega)
  have hdiv : ∀ n, (x + 1) / n = x / n + if (x + 1) % n = 0 then 1 else 0 := fun n ↦ by
    simp only [Nat.succ_div, Nat.dvd_iff_mod_eq_zero]
  have hmod : ((x + 1) % 400 = 0 → (x + 1) % 100 = 0) ∧ ((x + 1) % 100 = 0 → (x + 1) % 4 = 0) := by
    omega
  rw [daysBeforeMonth_thirteen, daysBeforeYear, daysBeforeYear, Nat.add_sub_cancel,
    Nat.add_sub_cancel, hdiv, hdiv, hdiv]
  by_cases hleap : IsLeap (x + 1)
  · rw [if_pos hleap]
    unfold IsLeap at hleap
    split_ifs <;> omega
  · rw [if_neg hleap]
    unfold IsLeap at hleap
    split_ifs <;> omega

theorem monotone_daysBeforeYear : Monotone daysBeforeYear := by
  refine monotone_nat_of_le_succ fun y ↦ ?_
  rcases Nat.eq_zero_or_pos y with rfl | hy
  · decide
  · rw [daysBeforeYear_succ hy]
    exact Nat.le_add_right _ _

/-- A year starts no sooner than as many common years would take it to. -/
theorem le_daysBeforeYear (y : ℕ) : 365 * (y - 1) ≤ daysBeforeYear y := by
  unfold daysBeforeYear
  omega

theorem daysInMonth_pos (y : ℕ) {m : ℕ} (h : 1 ≤ m ∧ m ≤ 12) : 1 ≤ daysInMonth y m := by
  obtain ⟨h1, h12⟩ := h
  interval_cases m <;> simp only [daysInMonth] <;> first | omega | (split <;> omega)

/-! ## Dates -/

/-- The fields of a date in the calendar. -/
def IsDate (year month day : ℕ) : Prop :=
  (1 ≤ year ∧ year ≤ 9999) ∧ (1 ≤ month ∧ month ≤ 12) ∧ 1 ≤ day ∧ day ≤ daysInMonth year month

instance (year month day : ℕ) : Decidable (IsDate year month day) :=
  inferInstanceAs (Decidable (_ ∧ _))

@[ext]
structure Date where
  year : ℕ
  month : ℕ
  day : ℕ
  valid : IsDate year month day
deriving DecidableEq

/-- The date with these fields, if there is one. -/
def date? (year : ℤ) (month day : ℕ) : Option Date :=
  if h : IsDate year.toNat month day then some ⟨year.toNat, month, day, h⟩ else none

theorem date?_eq_some_iff {year : ℤ} {month day : ℕ} {d : Date} :
    date? year month day = some d ↔ year = d.year ∧ month = d.month ∧ day = d.day := by
  rw [date?]
  split
  next h =>
    rw [Option.some_inj]
    constructor
    · rintro rfl
      have := h.1
      exact ⟨by simp only; omega, rfl, rfl⟩
    · rintro ⟨rfl, rfl, rfl⟩
      rfl
  next h =>
    refine iff_of_false nofun ?_
    rintro ⟨rfl, rfl, rfl⟩
    exact h d.valid

namespace Date

variable {a b d : Date}

theorem year_mem (d : Date) : 1 ≤ d.year ∧ d.year ≤ 9999 := d.valid.1

theorem month_mem (d : Date) : 1 ≤ d.month ∧ d.month ≤ 12 := d.valid.2.1

theorem day_mem (d : Date) : 1 ≤ d.day ∧ d.day ≤ daysInMonth d.year d.month := d.valid.2.2

/-- The fields, the most significant first. -/
def fields (d : Date) : ℕ ×ₗ ℕ ×ₗ ℕ := toLex (d.year, toLex (d.month, d.day))

theorem fields_injective : Function.Injective fields := by
  rintro ⟨_, _, _, _⟩ ⟨_, _, _, _⟩ h
  cases h
  rfl

/-- Dates are compared field by field. -/
instance : LinearOrder Date := LinearOrder.lift' fields fields_injective

theorem lt_iff : a < b ↔
    a.year < b.year ∨ a.year = b.year ∧
      (a.month < b.month ∨ a.month = b.month ∧ a.day < b.day) := by
  change fields a < fields b ↔ _
  rw [fields, fields, Prod.Lex.toLex_lt_toLex, Prod.Lex.toLex_lt_toLex]

theorem le_iff : a ≤ b ↔
    a.year < b.year ∨ a.year = b.year ∧
      (a.month < b.month ∨ a.month = b.month ∧ a.day ≤ b.day) := by
  change fields a ≤ fields b ↔ _
  rw [fields, fields, Prod.Lex.toLex_le_toLex, Prod.Lex.toLex_le_toLex]

/-! ## Ordinals -/

/-- The place of a date in its year, from 1. -/
def dayOfYear (d : Date) : ℕ := daysBeforeMonth d.year d.month + d.day

/-- The place of a date in the calendar, from 1. -/
def ordinal (d : Date) : ℕ := daysBeforeYear d.year + d.dayOfYear

theorem one_le_dayOfYear (d : Date) : 1 ≤ d.dayOfYear :=
  d.day_mem.1.trans (Nat.le_add_left _ _)

/-- A date comes before the end of its month. -/
theorem dayOfYear_le_month (d : Date) : d.dayOfYear ≤ daysBeforeMonth d.year (d.month + 1) :=
  Nat.add_le_add_left d.day_mem.2 _

/-- A date comes before the end of its year. -/
theorem dayOfYear_le_year (d : Date) : d.dayOfYear ≤ daysBeforeMonth d.year 13 :=
  d.dayOfYear_le_month.trans (monotone_daysBeforeMonth d.year (by have := d.month_mem; omega))

theorem ordinal_le_year (d : Date) : d.ordinal ≤ daysBeforeYear (d.year + 1) := by
  rw [daysBeforeYear_succ d.year_mem.1]
  exact Nat.add_le_add_left d.dayOfYear_le_year _

theorem strictMono_ordinal : StrictMono ordinal := by
  intro a b hab
  rcases lt_iff.mp hab with hyear | ⟨hyear, hmonth | ⟨hmonth, hday⟩⟩
  · calc a.ordinal ≤ daysBeforeYear (a.year + 1) := a.ordinal_le_year
      _ ≤ daysBeforeYear b.year := monotone_daysBeforeYear hyear
      _ < b.ordinal := Nat.lt_add_of_pos_right b.one_le_dayOfYear
  · have : a.dayOfYear < b.dayOfYear := calc
      a.dayOfYear ≤ daysBeforeMonth a.year (a.month + 1) := a.dayOfYear_le_month
      _ ≤ daysBeforeMonth a.year b.month := monotone_daysBeforeMonth _ hmonth
      _ < b.dayOfYear := by
        rw [hyear]
        exact Nat.lt_add_of_pos_right b.day_mem.1
    unfold ordinal
    rw [hyear]
    omega
  · unfold ordinal dayOfYear
    rw [hyear, hmonth]
    omega

theorem ordinal_injective : Function.Injective ordinal := strictMono_ordinal.injective

theorem ordinal_le_ordinal : a.ordinal ≤ b.ordinal ↔ a ≤ b := strictMono_ordinal.le_iff_le

/-- The last ordinal of the calendar. -/
def maxOrdinal : ℕ := 3652059

theorem ordinal_mem (d : Date) : 1 ≤ d.ordinal ∧ d.ordinal ≤ maxOrdinal := by
  constructor
  · exact d.one_le_dayOfYear.trans (Nat.le_add_left _ _)
  · have hyear : d.year + 1 ≤ 10000 := Nat.succ_le_succ d.year_mem.2
    exact d.ordinal_le_year.trans (monotone_daysBeforeYear hyear)

/-! ## The date of an ordinal -/

/-- The year that has so many days before a day of it. -/
def yearOf (n : ℕ) : ℕ := Nat.findGreatest (fun y ↦ daysBeforeYear y ≤ n) (n / 365 + 1)

theorem yearOf_spec (n : ℕ) :
    1 ≤ yearOf n ∧ daysBeforeYear (yearOf n) ≤ n ∧ n < daysBeforeYear (yearOf n + 1) := by
  have hone : daysBeforeYear 1 ≤ n := Nat.zero_le n
  refine ⟨Nat.le_findGreatest (Nat.le_add_left _ _) hone,
    Nat.findGreatest_spec (P := fun y ↦ daysBeforeYear y ≤ n) (Nat.le_add_left _ _) hone, ?_⟩
  by_cases hle : yearOf n + 1 ≤ n / 365 + 1
  · exact not_le.mp (Nat.findGreatest_is_greatest (k := yearOf n + 1) (Nat.lt_succ_self _) hle)
  · calc n < 365 * (n / 365 + 1) := by omega
      _ ≤ 365 * (yearOf n + 1 - 1) := by omega
      _ ≤ daysBeforeYear (yearOf n + 1) := le_daysBeforeYear _

/-- The month that has so many days of a year before a day of it. -/
def monthOf (y r : ℕ) : ℕ := Nat.findGreatest (fun m ↦ daysBeforeMonth y m ≤ r) 12

theorem monthOf_spec {y r : ℕ} (hr : r < daysBeforeMonth y 13) :
    (1 ≤ monthOf y r ∧ monthOf y r ≤ 12) ∧
      daysBeforeMonth y (monthOf y r) ≤ r ∧ r < daysBeforeMonth y (monthOf y r + 1) := by
  have hone : daysBeforeMonth y 1 ≤ r := Nat.zero_le r
  have hle : monthOf y r ≤ 12 := Nat.findGreatest_le 12
  refine ⟨⟨Nat.le_findGreatest (by omega) hone, hle⟩,
    Nat.findGreatest_spec (P := fun m ↦ daysBeforeMonth y m ≤ r) (by omega) hone, ?_⟩
  rcases hle.eq_or_lt with heq | hlt
  · rw [heq]
    exact hr
  · exact not_le.mp (Nat.findGreatest_is_greatest (k := monthOf y r + 1) (Nat.lt_succ_self _) hlt)

/-- The date with so many days before it. -/
def ofDays (n : ℕ) : Option Date :=
  let y := yearOf n
  let m := monthOf y (n - daysBeforeYear y)
  date? y m (n - daysBeforeYear y - daysBeforeMonth y m + 1)

theorem exists_ofDays {n : ℕ} (hn : n < maxOrdinal) :
    ∃ d, ofDays n = some d ∧ d.ordinal = n + 1 := by
  obtain ⟨hy1, hylow, hyhigh⟩ := yearOf_spec n
  have hy9999 : yearOf n ≤ 9999 := by
    by_contra hlt
    have : daysBeforeYear 10000 ≤ daysBeforeYear (yearOf n) :=
      monotone_daysBeforeYear (by omega)
    have hmax : daysBeforeYear 10000 = maxOrdinal := rfl
    omega
  rw [daysBeforeYear_succ hy1] at hyhigh
  obtain ⟨hm, hmlow, hmhigh⟩ := monthOf_spec (y := yearOf n) (r := n - daysBeforeYear (yearOf n))
    (by omega)
  rw [daysBeforeMonth_succ] at hmhigh
  generalize hy : yearOf n = y at *
  generalize hr : n - daysBeforeYear y = r at *
  generalize hmonth : monthOf y r = m at *
  refine ⟨⟨y, m, r - daysBeforeMonth y m + 1, ⟨hy1, hy9999⟩, hm, Nat.le_add_left 1 _, by omega⟩,
    ?_, ?_⟩
  · rw [ofDays, hy, hr, hmonth]
    exact date?_eq_some_iff.mpr ⟨rfl, rfl, rfl⟩
  · change daysBeforeYear y + (daysBeforeMonth y m + (r - daysBeforeMonth y m + 1)) = n + 1
    omega

theorem ofDays_eq_some_iff {n : ℕ} : ofDays n = some d ↔ d.ordinal = n + 1 := by
  rcases Nat.lt_or_ge n maxOrdinal with hn | hn
  · obtain ⟨d', hd', hordinal⟩ := exists_ofDays hn
    rw [hd', Option.some_inj, ← hordinal, ordinal_injective.eq_iff, eq_comm]
  · have hmax := d.ordinal_mem.2
    refine iff_of_false (fun h ↦ ?_) (by omega)
    have hyear : (yearOf n : ℤ) = d.year := (date?_eq_some_iff.mp h).1
    have hlast : yearOf n + 1 ≤ 10000 := by have := d.year_mem; omega
    have : daysBeforeYear (yearOf n + 1) ≤ maxOrdinal := monotone_daysBeforeYear hlast
    have := (yearOf_spec n).2.2
    omega

/-- The date so many days later, if it is in the calendar. -/
def addDays (d : Date) (n : ℤ) : Option Date :=
  if 1 ≤ (d.ordinal : ℤ) + n then ofDays (d.ordinal + n - 1).toNat else none

theorem addDays_eq_some_iff {n : ℤ} : a.addDays n = some b ↔ (b.ordinal : ℤ) = a.ordinal + n := by
  rw [addDays]
  split
  · rw [ofDays_eq_some_iff]
    omega
  · have := b.ordinal_mem
    exact iff_of_false nofun (by omega)

theorem exists_addDays {n : ℤ} :
    (∃ b, a.addDays n = some b) ↔ 1 ≤ (a.ordinal : ℤ) + n ∧ (a.ordinal : ℤ) + n ≤ maxOrdinal := by
  constructor
  · rintro ⟨b, hb⟩
    have := addDays_eq_some_iff.mp hb
    have := b.ordinal_mem
    omega
  · rintro ⟨hlow, hhigh⟩
    obtain ⟨b, hb, -⟩ := exists_ofDays (n := (a.ordinal + n - 1).toNat) (by omega)
    exact ⟨b, (if_pos hlow).trans hb⟩

/-- The next date is the one a day later. -/
theorem addDays_one_of_covBy (h : a ⋖ b) : a.addDays 1 = some b := by
  have hlt : a.ordinal < b.ordinal := strictMono_ordinal h.lt
  have hb := b.ordinal_mem
  obtain ⟨d, hd⟩ := exists_addDays (a := a) (n := 1) |>.mpr ⟨by omega, by omega⟩
  have hordinal : (d.ordinal : ℤ) = a.ordinal + 1 := addDays_eq_some_iff.mp hd
  have had : a < d := strictMono_ordinal.lt_iff_lt.mp (by omega)
  have hdb : d ≤ b := ordinal_le_ordinal.mp (by omega)
  rw [hd, hdb.eq_of_not_lt (h.2 had)]

/-- The day of the week, from 0 on a Monday. -/
def weekday (d : Date) : ℕ := (d.ordinal + 6) % 7

end Date

/-! ## Units of the calendar -/

inductive CalendarUnit where
  | day
  | week
  | month
  | year
deriving DecidableEq, Repr

namespace CalendarUnit

/-- The number of the day, of the Monday-to-Sunday week, of the month or of the year of a date. -/
def index : CalendarUnit → Date → ℤ
  | day, d => d.ordinal
  | week, d => ((d.ordinal : ℤ) - 1) / 7
  | month, d => 12 * d.year + d.month - 1
  | year, d => d.year

/-- Every date of the unit with this number is in the calendar. -/
def InCalendar : CalendarUnit → ℤ → Prop
  | day, k => 1 ≤ k ∧ k ≤ Date.maxOrdinal
  | week, k => 0 ≤ k ∧ 7 * k + 7 ≤ Date.maxOrdinal
  | month, k => 12 * 1 ≤ k ∧ k ≤ 12 * 9999 + 11
  | year, k => 1 ≤ k ∧ k ≤ 9999

instance (u : CalendarUnit) (k : ℤ) : Decidable (u.InCalendar k) := by
  cases u <;> exact inferInstanceAs (Decidable (_ ∧ _))

/-- The day, the month and the year of a date are in the calendar as a whole. -/
theorem inCalendar_index {u : CalendarUnit} (d : Date) (hu : u ≠ .week) :
    u.InCalendar (u.index d) := by
  have hordinal := d.ordinal_mem
  have hmonth := d.month_mem
  have hyear := d.year_mem
  cases u with
  | week => exact absurd rfl hu
  | day | month | year =>
    simp only [InCalendar, index]
    omega

theorem monotone_index (u : CalendarUnit) : Monotone u.index := by
  intro a b hab
  have hordinal : a.ordinal ≤ b.ordinal := Date.ordinal_le_ordinal.mpr hab
  have hfields := Date.le_iff.mp hab
  have ha := a.month_mem
  have hb := b.month_mem
  cases u <;> simp only [index] <;> omega

end CalendarUnit

end Haki.Data
