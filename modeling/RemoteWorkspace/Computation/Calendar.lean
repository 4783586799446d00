import Mathlib.Logic.Function.Iterate
import Mathlib.Tactic.Common
import Mathlib.Tactic.IntervalCases

/-!
# The Gregorian calendar

A date is a year, a month of it and a day of the month, and has a date after it. Counting days
from the first day of the year 1 numbers the dates: the date after one has the next number, and
no two dates have the same. So the date that lies some days after another is the one with the
number that lies as far after its number.
-/

set_option autoImplicit false

namespace RemoteWorkspace.Computation.Calendar

/-- A year with a 29th of February: one in four, but not at a turn of the century unless it
is one in four hundred. -/
def IsLeap (year : ℤ) : Prop := year % 4 = 0 ∧ (year % 100 ≠ 0 ∨ year % 400 = 0)

instance {year : ℤ} : Decidable (IsLeap year) := inferInstanceAs (Decidable (_ ∧ _))

/-- The days of a year. -/
def yearLength (year : ℤ) : ℕ := if IsLeap year then 366 else 365

/-- The days of a month. -/
def monthLength (year : ℤ) : ℕ → ℕ
  | 2 => if IsLeap year then 29 else 28
  | 4 | 6 | 9 | 11 => 30
  | _ => 31

/-- A date: a day that its month has. -/
structure Date where
  year : ℤ
  month : ℕ
  day : ℕ
  month_pos : 1 ≤ month
  month_le : month ≤ 12
  day_pos : 1 ≤ day
  day_le : day ≤ monthLength year month
  deriving DecidableEq

/-- Every month has a first day. -/
theorem monthLength_pos (year : ℤ) (month : ℕ) : 1 ≤ monthLength year month := by
  unfold monthLength
  split
  · split <;> decide
  all_goals decide

/-- The first day of a year. -/
def Date.newYear (year : ℤ) : Date where
  year := year
  month := 1
  day := 1
  month_pos := Nat.le_refl 1
  month_le := Nat.le_add_left 1 11
  day_pos := Nat.le_refl 1
  day_le := monthLength_pos year 1

/-- The date after a date: the next day of the month, or the first one of the next month, or
that of the next year. -/
def Date.next (date : Date) : Date :=
  if hday : date.day < monthLength date.year date.month then
    { date with
      day := date.day + 1
      day_pos := Nat.le_add_left 1 _
      day_le := hday }
  else if hmonth : date.month < 12 then
    { year := date.year
      month := date.month + 1
      day := 1
      month_pos := Nat.le_add_left 1 _
      month_le := hmonth
      day_pos := Nat.le_refl 1
      day_le := monthLength_pos _ _ }
  else
    Date.newYear (date.year + 1)

/-- The days from the first day of the year 1 to that of a year. -/
def daysBeforeYear (year : ℤ) : ℤ :=
  365 * (year - 1) + (year - 1) / 4 - (year - 1) / 100 + (year - 1) / 400

/-- The days of a year before the first one of a month. -/
def daysBeforeMonth (year : ℤ) : ℕ → ℕ
  | 0 | 1 => 0
  | month + 2 => daysBeforeMonth year (month + 1) + monthLength year (month + 1)

/-- The number of a date. -/
def Date.number (date : Date) : ℤ :=
  daysBeforeYear date.year + daysBeforeMonth date.year date.month + date.day - 1

/-! ### Years and months -/

section Years

variable {year : ℤ}

/-- A year begins where the one before it ends. -/
theorem daysBeforeYear_succ :
    daysBeforeYear (year + 1) = daysBeforeYear year + yearLength year := by
  unfold daysBeforeYear yearLength
  by_cases h : IsLeap year
  · rw [if_pos h]
    unfold IsLeap at h
    omega
  · rw [if_neg h]
    unfold IsLeap at h
    omega

/-- Years begin in their order. -/
theorem daysBeforeYear_mono {year' : ℤ} (h : year ≤ year') :
    daysBeforeYear year ≤ daysBeforeYear year' := by
  unfold daysBeforeYear
  omega

/-- The calendar repeats after 400 years. -/
theorem daysBeforeYear_add (n : ℤ) :
    daysBeforeYear (year + n * 400) = daysBeforeYear year + n * 146097 := by
  unfold daysBeforeYear
  omega

theorem daysBeforeMonth_succ {month : ℕ} (h : 1 ≤ month) :
    daysBeforeMonth year (month + 1) = daysBeforeMonth year month + monthLength year month := by
  obtain ⟨month, rfl⟩ := Nat.exists_eq_add_of_le' h
  rfl

/-- Months begin in their order. -/
theorem daysBeforeMonth_mono (year : ℤ) {month month' : ℕ} (hpos : 1 ≤ month) (h : month ≤ month') :
    daysBeforeMonth year month ≤ daysBeforeMonth year month' := by
  induction month', h using Nat.le_induction with
  | base => exact Nat.le_refl _
  | succ month' hle ih =>
    rw [daysBeforeMonth_succ (Nat.le_trans hpos hle)]
    omega

/-- The twelve months are the year. -/
theorem daysBeforeMonth_thirteen : daysBeforeMonth year 13 = yearLength year := by
  simp only [daysBeforeMonth, monthLength, yearLength]
  split <;> rfl

end Years

/-! ### The number of a date -/

section Numbers

variable {date date' : Date}

/-- A new year's number is that of the days before it. -/
theorem number_newYear (year : ℤ) : (Date.newYear year).number = daysBeforeYear year := by
  have hfirst : daysBeforeMonth year 1 = 0 := rfl
  unfold Date.newYear Date.number
  dsimp only
  rw [hfirst]
  omega

/-- The date after a date has the next number. -/
theorem number_next (date : Date) : date.next.number = date.number + 1 := by
  have hpos := date.day_pos
  have hle := date.day_le
  have hsucc := @daysBeforeMonth_succ date.year _ date.month_pos
  unfold Date.next
  split
  · -- in the month
    unfold Date.number
    push_cast
    omega
  · split
    · -- in the next month
      unfold Date.number
      dsimp only
      rw [hsucc]
      push_cast
      omega
    · -- in the next year
      have hmonth : date.month = 12 := Nat.le_antisymm date.month_le (by omega)
      have hend : daysBeforeMonth date.year (date.month + 1) = yearLength date.year := by
        rw [hmonth]
        exact daysBeforeMonth_thirteen
      rw [number_newYear, daysBeforeYear_succ]
      unfold Date.number
      omega

/-- A date is in its year. -/
theorem number_lt (date : Date) : date.number < daysBeforeYear (date.year + 1) := by
  have hmonth := daysBeforeMonth_mono date.year (Nat.le_add_left 1 date.month)
    (Nat.succ_le_succ date.month_le)
  rw [daysBeforeMonth_succ date.month_pos, daysBeforeMonth_thirteen] at hmonth
  have hle := date.day_le
  rw [Date.number, daysBeforeYear_succ]
  omega

theorem number_ge (date : Date) : daysBeforeYear date.year ≤ date.number := by
  have hpos := date.day_pos
  rw [Date.number]
  omega

/-- A date of an earlier year has a smaller number. -/
theorem number_lt_of_year (h : date.year < date'.year) : date.number < date'.number :=
  calc date.number < daysBeforeYear (date.year + 1) := number_lt date
    _ ≤ daysBeforeYear date'.year := daysBeforeYear_mono h
    _ ≤ date'.number := number_ge date'

/-- A date of an earlier month of the year has a smaller number. -/
theorem number_lt_of_month (hyear : date.year = date'.year) (h : date.month < date'.month) :
    date.number < date'.number := by
  have hmono := daysBeforeMonth_mono date'.year (Nat.le_add_left 1 date.month) h
  have hle := date.day_le
  have hpos := date'.day_pos
  rw [daysBeforeMonth_succ date.month_pos] at hmono
  rw [Date.number, Date.number, hyear]
  rw [hyear] at hle
  omega

/-- No two dates have the same number. -/
theorem number_injective : Function.Injective Date.number := by
  intro date date' h
  have hyear : date.year = date'.year := by
    rcases lt_trichotomy date.year date'.year with hlt | heq | hgt
    · exact absurd h (number_lt_of_year hlt).ne
    · exact heq
    · exact absurd h (number_lt_of_year hgt).ne'
  have hmonth : date.month = date'.month := by
    rcases lt_trichotomy date.month date'.month with hlt | heq | hgt
    · exact absurd h (number_lt_of_month hyear hlt).ne
    · exact heq
    · exact absurd h (number_lt_of_month hyear.symm hgt).ne'
  have hday : date.day = date'.day := by
    unfold Date.number at h
    rw [hyear, hmonth] at h
    omega
  cases date
  cases date'
  simp only [Date.mk.injEq]
  exact ⟨hyear, hmonth, hday⟩

/-- Days after a date the numbers are as much greater. -/
theorem number_iterate (date : Date) (n : ℕ) : (Date.next^[n] date).number = date.number + n := by
  induction n with
  | zero => exact (Int.add_zero _).symm
  | succ n ih =>
    rw [Function.iterate_succ_apply', number_next, ih]
    push_cast
    omega

/-- The date that lies some days after another is the one with that number. -/
theorem iterate_next_eq_iff {n : ℕ} :
    Date.next^[n] date = date' ↔ date'.number = date.number + n := by
  rw [← number_iterate]
  exact ⟨fun h => congrArg _ h.symm, fun h => number_injective h.symm⟩

end Numbers

end RemoteWorkspace.Computation.Calendar
