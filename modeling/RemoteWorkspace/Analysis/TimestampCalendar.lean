import RemoteWorkspace.Computation.Calendar
import RemoteWorkspace.Model.AgentState

/-!
# The dates of timestamps

An era is four centuries of 36524 days and a day, a century is 25 spans of four years of 1461 days
but for the last one, and such a span is four years of 365 days and a day. Taking the leap days
out of a day of the era leaves as many days for each year, which is how `civil_from_days` finds
the year; a day of the year, counted from March, finds the month and the day. That date has the
number of the day, so it is the one date that lies so many days after the epoch.
-/

set_option autoImplicit false

namespace RemoteWorkspace.Analysis.TimestampCalendar

open RemoteWorkspace.Computation.Calendar RemoteWorkspace.Model.AgentState

/-! ### Machine integers -/

section Integers

theorem subU64_of_le {a b : ℕ} (h : b ≤ a) : subU64 a b = some (a - b) := if_pos h

theorem asU64_of_lt {n : ℤ} (hpos : 0 ≤ n) (h : n < 146097) : asU64 n = n.toNat := by
  have hsize : 146097 ≤ 1 <<< 64 := by decide
  have hlt : n < (1 <<< 64 : ℕ) :=
    calc n < (146097 : ℕ) := h
      _ ≤ (1 <<< 64 : ℕ) := Int.ofNat_le.mpr hsize
  rw [asU64, Int.emod_eq_of_lt hpos hlt]

theorem asI64_of_le {n : ℕ} (h : n ≤ i64Max) : asI64 n = n := by
  have hsize : i64Max < (1 <<< 64 + 1) / 2 := by decide
  have hlt : (n : ℤ) < ((1 <<< 64 : ℕ) + 1) / 2 := Int.ofNat_lt.mpr (Nat.lt_of_le_of_lt h hsize)
  exact Int.bmod_eq_of_le (Int.le_trans (Int.neg_nonpos_of_nonneg (Int.natCast_nonneg _))
    (Int.natCast_nonneg n)) hlt

theorem asU32_of_lt {n : ℕ} (h : n < 32) : asU32 n = n :=
  Nat.mod_eq_of_lt (Nat.lt_trans h (by decide))

end Integers

/-! ### Years -/

/-- A day of an era in centuries, spans of four years, years, and days of the last one. The last
day of a span is that of its fourth year, which the last span of a century has not, but for the
last century. -/
structure Spans (dayOfEra centuries fours years days : ℕ) : Prop where
  centuries_le : centuries ≤ 3
  fours_le : fours ≤ 24
  years_le : years ≤ 3
  sum : dayOfEra = 36524 * centuries + 1461 * fours + 365 * years + days
  days_le : days ≤ 364 ∨ days = 365 ∧ years = 3 ∧ (fours ≤ 23 ∨ centuries = 3)

section Years

variable {dayOfEra c q t u : ℕ}

/-- The day of an era in centuries and days. -/
theorem centuries_of_lt (h : dayOfEra < 146097) :
    ∃ c r, dayOfEra = 36524 * c + r ∧ c ≤ 3 ∧ (r < 36524 ∨ r = 36524 ∧ c = 3) := by
  by_cases hlast : dayOfEra = 146096
  · exact ⟨3, 36524, by omega, by omega, by omega⟩
  · exact ⟨dayOfEra / 36524, dayOfEra % 36524, by omega, by omega, by omega⟩

/-- The day of four years in years and days. -/
theorem years_of_lt {s : ℕ} (h : s < 1461) :
    ∃ t u, s = 365 * t + u ∧ t ≤ 3 ∧ (u ≤ 364 ∨ u = 365 ∧ t = 3) := by
  by_cases hlast : s = 1460
  · exact ⟨3, 365, by omega, by omega, by omega⟩
  · exact ⟨s / 365, s % 365, by omega, by omega, by omega⟩

/-- Every day of an era is in a year of it. -/
theorem spans_of_lt (h : dayOfEra < 146097) : ∃ c q t u, Spans dayOfEra c q t u := by
  obtain ⟨c, r, hday, hc, hr⟩ := centuries_of_lt h
  obtain ⟨t, u, hspan, ht, hu⟩ := years_of_lt (Nat.mod_lt r (by decide : 0 < 1461))
  have hsplit := Nat.div_add_mod r 1461
  exact ⟨c, r / 1461, t, u, hc, by omega, ht, by omega, by omega⟩

/-- No year has more than 366 days. -/
theorem Spans.day_le (h : Spans dayOfEra c q t u) : u ≤ 365 := by
  have hdays := h.days_le
  omega

/-- The spans of four years that are behind a day, and one more on the last days of a span. -/
theorem Spans.div_fours (h : Spans dayOfEra c q t u) : dayOfEra / 1460 =
    25 * c + q + if u = 365 ∨ 1460 ≤ 24 * c + q + 365 * t + u then 1 else 0 := by
  obtain ⟨hc, hq, ht, hsum, hu⟩ := h
  split <;> omega

/-- The centuries that are behind a day, and the one day that is behind four of them. -/
theorem Spans.div_centuries (h : Spans dayOfEra c q t u) :
    dayOfEra / 36524 = c + dayOfEra / 146096 := by
  obtain ⟨hc, hq, ht, hsum, hu⟩ := h
  by_cases hlast : dayOfEra = 146096
  · have hthree : c = 3 := by omega
    rw [hlast, hthree]
  · have hlt : dayOfEra < 36524 * (c + 1) := by omega
    have hsmall : dayOfEra < 146096 := by omega
    omega

/-- Without the leap days that are behind a day, each year has 365. -/
theorem Spans.leapless (h : Spans dayOfEra c q t u) :
    365 * (100 * c + 4 * q + t) ≤ dayOfEra - dayOfEra / 1460 + c ∧
      dayOfEra - dayOfEra / 1460 + c < 365 * (100 * c + 4 * q + t) + 365 := by
  have hfours := h.div_fours
  obtain ⟨hc, hq, ht, hsum, hu⟩ := h
  split at hfours <;> omega

/-- So the year of the era is found. -/
theorem Spans.yearOfEra (h : Spans dayOfEra c q t u) :
    (dayOfEra - dayOfEra / 1460 + dayOfEra / 36524 - dayOfEra / 146096) / 365 =
      100 * c + 4 * q + t := by
  have hcenturies : dayOfEra - dayOfEra / 1460 + dayOfEra / 36524 - dayOfEra / 146096 =
      dayOfEra - dayOfEra / 1460 + c := by
    rw [h.div_centuries]
    omega
  obtain ⟨hge, hlt⟩ := h.leapless
  rw [hcenturies]
  omega

/-- The days of the era before the year. -/
theorem Spans.daysBefore (h : Spans dayOfEra c q t u) :
    365 * (100 * c + 4 * q + t) + (100 * c + 4 * q + t) / 4 - (100 * c + 4 * q + t) / 100 =
      36524 * c + 1461 * q + 365 * t := by
  obtain ⟨hc, hq, ht, -, -⟩ := h
  omega

/-- So the year after begins in January as far from the beginning of the era. -/
theorem Spans.daysBeforeYear (h : Spans dayOfEra c q t u) :
    Computation.Calendar.daysBeforeYear ((100 * c + 4 * q + t : ℕ) + 1) =
      (36524 * c + 1461 * q + 365 * t : ℕ) := by
  obtain ⟨hc, hq, ht, -, -⟩ := h
  unfold Computation.Calendar.daysBeforeYear
  omega

/-- A year of 366 days ends in a leap year. -/
theorem Spans.leap (h : Spans dayOfEra c q t u) (hu : u = 365) (era : ℤ) :
    IsLeap ((100 * c + 4 * q + t : ℕ) + era * 400 + 1) := by
  obtain ⟨hc, hq, ht, hsum, hdays⟩ := h
  unfold IsLeap
  omega

end Years

/-! ### Months -/

section Months

variable {year : ℤ} {dayOfYear monthPrime : ℕ}

/-- A day is in one of the twelve months from March on, behind the days of those before it. -/
theorem monthPrime_spec (hday : dayOfYear ≤ 365) (hmonth : monthPrime = (5 * dayOfYear + 2) / 153) :
    monthPrime ≤ 11 ∧ (153 * monthPrime + 2) / 5 ≤ dayOfYear ∧
      dayOfYear < (153 * (monthPrime + 1) + 2) / 5 := by
  have hle : monthPrime ≤ 11 := by omega
  refine ⟨hle, ?_⟩
  interval_cases monthPrime <;> omega

/-- From March to December: the days before a month, and its days. -/
theorem month_of_year (h : monthPrime ≤ 9) :
    daysBeforeMonth year (monthPrime + 3) + 306 = yearLength year + (153 * monthPrime + 2) / 5 ∧
      (153 * (monthPrime + 1) + 2) / 5 =
        (153 * monthPrime + 2) / 5 + monthLength year (monthPrime + 3) := by
  unfold yearLength
  interval_cases monthPrime <;> simp only [daysBeforeMonth, monthLength] <;> split <;> decide

/-- January and February, which are months of the next year. -/
theorem month_of_next (h : monthPrime = 10 ∨ monthPrime = 11) (hday : dayOfYear ≤ 365)
    (hlt : dayOfYear < (153 * (monthPrime + 1) + 2) / 5)
    (hleap : dayOfYear = 365 → IsLeap year) :
    daysBeforeMonth year (monthPrime - 9) + 306 = (153 * monthPrime + 2) / 5 ∧
      dayOfYear < (153 * monthPrime + 2) / 5 + monthLength year (monthPrime - 9) := by
  rcases h with rfl | rfl
  · exact ⟨rfl, hlt⟩
  · refine ⟨rfl, ?_⟩
    simp only [monthLength]
    split
    · exact Nat.lt_succ_of_le hday
    · have hne : dayOfYear ≠ 365 := fun heq => absurd (hleap heq) (by assumption)
      change dayOfYear < 365
      omega

/-- The month and the day from March on, as a date of the year or, in January and February, of
the next one. -/
theorem date_of_march (hday : dayOfYear ≤ 365) (hleap : dayOfYear = 365 → IsLeap (year + 1))
    (hmonth : monthPrime = (5 * dayOfYear + 2) / 153) :
    ∃ date : Date, date.month = (if monthPrime < 10 then monthPrime + 3 else monthPrime - 9) ∧
      date.year = (if date.month ≤ 2 then year + 1 else year) ∧
      date.day = dayOfYear - (153 * monthPrime + 2) / 5 + 1 ∧
      date.number + 306 = daysBeforeYear (year + 1) + dayOfYear := by
  obtain ⟨hle, hbefore, hlt⟩ := monthPrime_spec hday hmonth
  by_cases hten : monthPrime < 10
  · obtain ⟨hdays, hlength⟩ := @month_of_year year monthPrime (by omega)
    refine ⟨⟨year, monthPrime + 3, dayOfYear - (153 * monthPrime + 2) / 5 + 1, by omega, by omega,
      by omega, by omega⟩, (if_pos hten).symm, ?_, rfl, ?_⟩
    · exact (if_neg (by dsimp only; omega)).symm
    · rw [Date.number, daysBeforeYear_succ]
      dsimp only
      omega
  · obtain ⟨hdays, hlength⟩ := month_of_next (by omega) hday hlt hleap
    refine ⟨⟨year + 1, monthPrime - 9, dayOfYear - (153 * monthPrime + 2) / 5 + 1, by omega,
      by omega, by omega, by omega⟩, (if_neg hten).symm, ?_, rfl, ?_⟩
    · exact (if_pos (by dsimp only; omega)).symm
    · rw [Date.number]
      dsimp only
      omega

end Months

/-! ### Days -/

section Days

/-- The era rounds down, also before the year 0. -/
theorem era_eq (shifted : ℤ) : era shifted = shifted / 146097 := by
  unfold era
  split
  · rename_i hpos
    exact Int.tdiv_eq_ediv_of_nonneg hpos
  · rename_i hneg
    have hflip : shifted - 146096 = -(146096 - shifted) := by omega
    rw [hflip, Int.neg_tdiv, Int.tdiv_eq_ediv_of_nonneg (by omega)]
    omega

/-- So what is left is a day of the era. -/
theorem dayOfEra_spec (shifted : ℤ) :
    ∃ dayOfEra : ℕ, asU64 (shifted - era shifted * 146097) = dayOfEra ∧ dayOfEra < 146097 ∧
      shifted = era shifted * 146097 + dayOfEra := by
  have hpos : 0 ≤ shifted - era shifted * 146097 := by
    rw [era_eq]
    omega
  have hlt : shifted - era shifted * 146097 < 146097 := by
    rw [era_eq]
    omega
  exact ⟨_, asU64_of_lt hpos hlt, by omega, by omega⟩

/-- No subtraction goes below zero, and the date is that of the spans the day is in. -/
theorem civilFromDays_of_spans {days : ℤ} {dayOfEra c q t u monthPrime : ℕ}
    (hdayOfEra : asU64 (days + 719468 - era (days + 719468) * 146097) = dayOfEra)
    (h : Spans dayOfEra c q t u) (hmonth : monthPrime = (5 * u + 2) / 153) :
    let year := ((100 * c + 4 * q + t : ℕ) : ℤ) + era (days + 719468) * 400
    let month := if monthPrime < 10 then monthPrime + 3 else monthPrime - 9
    civilFromDays days = some (if month ≤ 2 then year + 1 else year, month,
      u - (153 * monthPrime + 2) / 5 + 1) := by
  intro year month
  obtain ⟨hle, hbefore, hlt⟩ := monthPrime_spec h.day_le hmonth
  have hfours : subU64 dayOfEra (dayOfEra / 1460) = some (dayOfEra - dayOfEra / 1460) :=
    subU64_of_le (Nat.div_le_self _ _)
  have hlast : subU64 (dayOfEra - dayOfEra / 1460 + dayOfEra / 36524) (dayOfEra / 146096) =
      some (dayOfEra - dayOfEra / 1460 + dayOfEra / 36524 - dayOfEra / 146096) := by
    have hcenturies := h.div_centuries
    exact subU64_of_le (by omega)
  have hdaysBefore : subU64 (365 * (100 * c + 4 * q + t) + (100 * c + 4 * q + t) / 4)
      ((100 * c + 4 * q + t) / 100) = some (36524 * c + 1461 * q + 365 * t) := by
    rw [← h.daysBefore]
    exact subU64_of_le (by omega)
  have hdayOfYear : subU64 dayOfEra (36524 * c + 1461 * q + 365 * t) = some u := by
    have hsum := h.sum
    rw [subU64_of_le (by omega), hsum, Nat.add_sub_cancel_left]
  have hday : subU64 u ((153 * monthPrime + 2) / 5) = some (u - (153 * monthPrime + 2) / 5) :=
    subU64_of_le hbefore
  have hyears : asI64 (100 * c + 4 * q + t) = ((100 * c + 4 * q + t : ℕ) : ℤ) := by
    have hmax : 1000 ≤ i64Max := by decide
    obtain ⟨hc, hq, ht, -, -⟩ := h
    exact asI64_of_le (by omega)
  have hday32 : asU32 (u - (153 * monthPrime + 2) / 5 + 1) = u - (153 * monthPrime + 2) / 5 + 1 :=
    asU32_of_lt (by omega)
  unfold civilFromDays
  simp only [hdayOfEra, hfours, hlast, h.yearOfEra, hdaysBefore, hdayOfYear, ← hmonth, hday,
    hyears, hday32, Option.bind_eq_bind, Option.bind_some]
  by_cases hten : monthPrime < 10
  · have hmonths : month = monthPrime + 3 := if_pos hten
    rw [if_pos hten, asU32_of_lt (by omega), hmonths]
  · have hmonths : month = monthPrime - 9 := if_neg hten
    rw [if_neg hten, subU64_of_le (by omega), Option.bind_some, asU32_of_lt (by omega), hmonths]

/-- The date that is found has the number of its day. -/
theorem civilFromDays_number (days : ℤ) :
    ∃ date : Date, civilFromDays days = some (date.year, date.month, date.day) ∧
      date.number = days + 719162 := by
  obtain ⟨dayOfEra, hdayOfEra, hlt, hshifted⟩ := dayOfEra_spec (days + 719468)
  obtain ⟨c, q, t, u, h⟩ := spans_of_lt hlt
  obtain ⟨date, hmonth, hyear, hday, hnumber⟩ :=
    date_of_march h.day_le (fun heq => h.leap heq (era (days + 719468))) rfl
  refine ⟨date, ?_, ?_⟩
  · rw [civilFromDays_of_spans hdayOfEra h rfl, hyear, hday, ← hmonth]
  · have hsum := h.sum
    rw [Int.add_right_comm, daysBeforeYear_add, h.daysBeforeYear] at hnumber
    omega

/-- The 1st of January 1970. -/
def epoch : Date := Date.newYear 1970

theorem number_epoch : epoch.number = 719162 := number_newYear 1970

/-- So it is the date that lies so many days after the epoch. -/
theorem civilFromDays_next (days : ℕ) : ∃ date : Date,
    civilFromDays days = some (date.year, date.month, date.day) ∧
      Date.next^[days] epoch = date := by
  obtain ⟨date, hdate, hnumber⟩ := civilFromDays_number days
  refine ⟨date, hdate, iterate_next_eq_iff.mpr ?_⟩
  rw [hnumber, number_epoch]
  omega

/-- A date after the epoch is in one of the years from 1970 on. -/
theorem year_of_next {date : Date} {days : ℕ} (h : Date.next^[days] epoch = date) :
    1970 ≤ date.year := by
  have hnumber := iterate_next_eq_iff.mp h
  rw [number_epoch] at hnumber
  by_contra hearlier
  have hlt := number_lt date
  have hmono : daysBeforeYear (date.year + 1) ≤ daysBeforeYear 1970 :=
    daysBeforeYear_mono (by omega)
  have hepoch : daysBeforeYear 1970 = 719162 := by decide
  omega

/-- The `i64`s that `civil_from_days` computes of a count of days that is not negative. -/
def signed (days : ℕ) : List ℤ :=
  let shifted : ℤ := days + 719468
  [shifted, era shifted, era shifted * 146097, shifted - era shifted * 146097, era shifted * 400] ++
    (civilFromDays days).toList.map Prod.fst

/-- Where the first sum is an `i64`, all of them are. -/
theorem signed_fits {days : ℕ} (h : days + 719468 ≤ i64Max) :
    ∀ n ∈ signed days, 0 ≤ n ∧ n ≤ i64Max := by
  obtain ⟨date, hdate, hnext⟩ := civilFromDays_next days
  have hyear := year_of_next hnext
  have hnumber := iterate_next_eq_iff.mp hnext
  have hge := number_ge date
  have hera := era_eq (days + 719468)
  rw [number_epoch] at hnumber
  unfold daysBeforeYear at hge
  rw [signed, hdate]
  intro n hn
  simp only [Option.toList_some, List.map_cons, List.map_nil, List.cons_append, List.nil_append,
    List.mem_cons, List.not_mem_nil, or_false] at hn
  rcases hn with rfl | rfl | rfl | rfl | rfl | rfl <;> omega

end Days

/-! ### Texts -/

/-- The numbers in a text, when some digits of the first one are behind. -/
def numbersFrom : Option ℕ → Text → List ℕ
  | behind, [] => behind.toList
  | behind, c :: text =>
    if c.isDigit then numbersFrom (some (10 * behind.getD 0 + (c.toNat - '0'.toNat))) text
    else behind.toList ++ numbersFrom none text

/-- The numbers in a text: each run of digits is one. -/
def numbers (text : Text) : List ℕ := numbersFrom none text

section Texts

variable {digits rest : Text} {n width : ℕ}

/-- A run of digits goes on. -/
theorem numbersFrom_digits (h : ∀ c ∈ digits, c.isDigit = true) :
    numbersFrom (some n) (digits ++ rest) =
      numbersFrom (some (Nat.ofDigitChars 10 digits n)) rest := by
  induction digits generalizing n with
  | nil => rw [List.nil_append, Nat.ofDigitChars_nil]
  | cons c digits ih =>
    have hothers : ∀ d ∈ digits, d.isDigit = true := fun d hd => h d (List.mem_cons_of_mem _ hd)
    rw [List.cons_append, numbersFrom, if_pos (h c List.mem_cons_self), ih hothers,
      Nat.ofDigitChars_cons, Option.getD_some]

/-- A run of digits begins, as if zeros were behind. -/
theorem numbersFrom_none (hne : digits ≠ []) (h : ∀ c ∈ digits, c.isDigit = true) :
    numbersFrom none (digits ++ rest) = numbersFrom (some (Nat.ofDigitChars 10 digits 0)) rest := by
  rw [← numbersFrom_digits h]
  cases digits with
  | nil => exact absurd rfl hne
  | cons c digits =>
    have hc := h c List.mem_cons_self
    rw [List.cons_append, numbersFrom, if_pos hc, numbersFrom, if_pos hc]
    rfl

/-- A padded number is a run of digits that makes it. -/
theorem padded_digits (width n : ℕ) : padded width n ≠ [] ∧
    (∀ c ∈ padded width n, c.isDigit = true) ∧ Nat.ofDigitChars 10 (padded width n) 0 = n := by
  have hpadded : padded width n =
      List.replicate (width - (Nat.toDigits 10 n).length) '0' ++ Nat.toDigits 10 n :=
    if_neg (Int.not_lt.mpr (Int.natCast_nonneg n))
  rw [hpadded]
  refine ⟨?_, ?_, ?_⟩
  · exact List.append_ne_nil_of_right_ne_nil _ Nat.toDigits_ne_nil
  · intro c hc
    rcases List.mem_append.mp hc with hzero | hdigit
    · rw [List.eq_of_mem_replicate hzero]
      rfl
    · exact Nat.isDigit_of_mem_toDigits (by decide) (by decide) hdigit
  · rw [Nat.ofDigitChars_append, Nat.ofDigitChars_replicate_zero, Nat.mul_zero,
      Nat.ofDigitChars_ten_toDigits]

/-- A padded number that something else follows. -/
theorem numbers_padded {c : Char} (hc : c.isDigit = false) (width n : ℕ) (rest : Text) :
    numbers (padded width n ++ c :: rest) = n :: numbers rest := by
  obtain ⟨hne, hdigits, hnumber⟩ := padded_digits width n
  rw [numbers, numbersFrom_none hne hdigits, hnumber, numbersFrom, hc]
  rfl

/-- The numbers in a timestamp. -/
theorem numbers_timestamp (year month day hour minute second : ℕ) :
    numbers (padded 4 year ++ '-' :: padded 2 month ++ '-' :: padded 2 day ++ 'T' ::
      padded 2 hour ++ ':' :: padded 2 minute ++ ':' :: padded 2 second ++ ['Z']) =
      [year, month, day, hour, minute, second] := by
  simp only [List.append_assoc, List.cons_append]
  rw [numbers_padded rfl, numbers_padded rfl, numbers_padded rfl, numbers_padded rfl,
    numbers_padded rfl, numbers_padded rfl]
  rfl

end Texts

/-! ### Instants -/

/-- The fields of a timestamp: a date that lies some days after the epoch, and a time of day. -/
structure Fields where
  date : Date
  hour : ℕ
  minute : ℕ
  second : ℕ
  hour_lt : hour < 24
  minute_lt : minute < 60
  second_lt : second < 60

/-- The seconds from the epoch to what the fields say. -/
def Fields.count (fields : Fields) : ℤ :=
  (((fields.date.number - epoch.number) * 24 + fields.hour) * 60 + fields.minute) * 60 +
    fields.second

/-- The fields as numbers, in the order in which they are written. -/
def Fields.numbers (fields : Fields) : List ℕ :=
  [fields.date.year.toNat, fields.date.month, fields.date.day, fields.hour, fields.minute,
    fields.second]

/-- The time of day of a count of seconds, on the date that its days lead to. -/
theorem timestamp_fields (seconds : ℕ) : ∃ text, ∃ fields : Fields,
    timestamp seconds = some text ∧ numbers text = fields.numbers ∧ 1970 ≤ fields.date.year ∧
      fields.count = seconds := by
  obtain ⟨date, hdate, hnext⟩ := civilFromDays_next (seconds / 86400)
  have hyear := year_of_next hnext
  have hnumber := iterate_next_eq_iff.mp hnext
  have hnat : (date.year.toNat : ℤ) = date.year := Int.toNat_of_nonneg (by omega)
  have hdays : (seconds : ℤ) / 86400 = (seconds / 86400 : ℕ) := rfl
  have hhour : (seconds : ℤ) % 86400 / 3600 = (seconds % 86400 / 3600 : ℕ) := rfl
  have hminute : (seconds : ℤ) % 86400 % 3600 / 60 = (seconds % 86400 % 3600 / 60 : ℕ) := rfl
  have hsecond : (seconds : ℤ) % 86400 % 60 = (seconds % 86400 % 60 : ℕ) := rfl
  refine ⟨_, ⟨date, seconds % 86400 / 3600, seconds % 86400 % 3600 / 60, seconds % 86400 % 60,
    by omega, by omega, by omega⟩, ?_, numbers_timestamp _ _ _ _ _ _, hyear, ?_⟩
  · unfold timestamp
    dsimp only
    rw [hdays, hdate, hhour, hminute, hsecond, hnat]
    rfl
  · unfold Fields.count
    dsimp only
    omega

/-- An instant is rendered by its seconds since the epoch, and as the epoch before it. -/
theorem iso8601_eq (time : SystemTime) : iso8601 time = timestamp time.seconds.toNat := by
  have hfits := time.fits
  unfold iso8601 SystemTime.sinceEpoch
  split
  · have hcast : asI64 time.seconds.toNat = time.seconds.toNat := asI64_of_le (by omega)
    rw [Option.map_some, Option.getD_some, hcast]
  · have hzero : time.seconds.toNat = 0 := by omega
    rw [hzero]
    rfl

/-- The days that it converts are far from where the first sum stops being an `i64`. -/
theorem days_fit (time : SystemTime) : time.seconds.toNat / 86400 + 719468 ≤ i64Max := by
  have hfits := time.fits
  have hlarge : 2 * 719468 ≤ i64Max := by decide
  omega

/-- For every count of days the date is found without a subtraction that goes below zero, and it
is the one date that lies so many days after the epoch; where the first sum is an `i64`, so are
all, and for every instant it is one. And for every count of seconds the text that is rendered has
the fields that make it. -/
theorem timestamps_tell_time :
    (∀ days : ℕ, ∃ date : Date,
      civilFromDays days = some (date.year, date.month, date.day) ∧
        Date.next^[days] epoch = date ∧
        (∀ other : Date, other.number - epoch.number = days ↔ other = date) ∧
        (days + 719468 ≤ i64Max → ∀ n ∈ signed days, 0 ≤ n ∧ n ≤ i64Max)) ∧
      (∀ seconds : ℕ, ∃ text, ∃ fields : Fields, timestamp seconds = some text ∧
        numbers text = fields.numbers ∧ 1970 ≤ fields.date.year ∧ fields.count = seconds) ∧
      ∀ time : SystemTime, iso8601 time = timestamp time.seconds.toNat ∧
        time.seconds.toNat / 86400 + 719468 ≤ i64Max := by
  refine ⟨fun days => ?_, timestamp_fields, fun time => ⟨iso8601_eq time, days_fit time⟩⟩
  obtain ⟨date, hdate, hnext⟩ := civilFromDays_next days
  refine ⟨date, hdate, hnext, fun other => ⟨fun h => ?_, ?_⟩, signed_fits⟩
  · have hother : Date.next^[days] epoch = other := iterate_next_eq_iff.mpr (by omega)
    exact hother.symm.trans hnext
  · rintro rfl
    have hnumber := iterate_next_eq_iff.mp hnext
    omega

example : (timestamp 1767225600).map String.ofList = some "2026-01-01T00:00:00Z" := by
  decide +kernel

end RemoteWorkspace.Analysis.TimestampCalendar
