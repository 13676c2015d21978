import RakudoStar.Temporal.Dateish

/-!
# Day counts and the calendar

The formulas are those of the calendar except before March of the year 0, where the divisions
truncate, and near the end of the range of an `int`.
-/

namespace RakudoStar.Temporal

open Foundation
open Foundation.Gregorian (IsLeap yearStart monthStart ofMarch ofNumber centuryStart yearInCentury)

theorem div_of_nonneg {a b : Int} (nonneg : 0 ≤ a) : div a b = a / b :=
  Int.tdiv_eq_ediv_of_nonneg nonneg

theorem div_of_neg {a b : Int} (neg : a < 0) : div a b = -(-a / b) := by
  have positive : 0 ≤ -a := by omega
  rw [div, ← Int.tdiv_eq_ediv_of_nonneg positive, Int.neg_tdiv, Int.neg_neg]

theorem div_cases (a b : Int) : 0 ≤ a ∧ div a b = a / b ∨ a < 0 ∧ div a b = -(-a / b) := by
  rcases Int.lt_or_le a 0 with neg | nonneg
  · exact .inr ⟨neg, div_of_neg neg⟩
  · exact .inl ⟨nonneg, div_of_nonneg nonneg⟩

theorem native_range (i : Int) :
    -9223372036854775808 ≤ native i ∧ native i < 9223372036854775808 := by
  rw [native]
  omega

theorem native_of_range {i : Int} (low : -9223372036854775808 ≤ i)
    (high : i < 9223372036854775808) : native i = i := by
  rw [native]
  omega

theorem exists_native_eq (i : Int) : ∃ q, native i = i + 18446744073709551616 * q :=
  ⟨-((i + 9223372036854775808) / 18446744073709551616), by rw [native]; omega⟩

theorem native_add_mul (i q : Int) : native (i + 18446744073709551616 * q) = native i := by
  rw [native, native]
  omega

theorem native_sub_native (i j : Int) : native (i - native j) = native (i - j) := by
  rcases exists_native_eq j with ⟨q, eq⟩
  rw [eq, show i - (j + 18446744073709551616 * q) = i - j + 18446744073709551616 * -q by omega,
    native_add_mul]

theorem native_add_native (i j : Int) : native (native i + j) = native (i + j) := by
  rcases exists_native_eq i with ⟨q, eq⟩
  rw [eq, show i + 18446744073709551616 * q + j = i + j + 18446744073709551616 * q by omega,
    native_add_mul]

theorem native_eq_of_shifted {i j : Int} (q : Int) (eq : i = j + 18446744073709551616 * q)
    (low : -9223372036854775808 ≤ j) (high : j < 9223372036854775808) : native i = j := by
  rw [eq, native_add_mul, native_of_range low high]

/-- The years, counted from March on, for which the truncated divisions add up. -/
def Exact (year : Int) : Prop := 0 ≤ year ∨ IsLeap year

instance (year : Int) : Decidable (Exact year) := inferInstanceAs (Decidable (_ ∨ _))

theorem isLeapYear_iff (year : Int) : isLeapYear year = true ↔ IsLeap year := by
  simp [isLeapYear, IsLeap]

theorem daysInMonth_eq (year month : Int) :
    daysInMonth year month = Gregorian.monthLength year month := by
  rw [daysInMonth, Gregorian.monthLength]
  simp only [isLeapYear_iff]

theorem checkValue_eq_ok_iff (val : Int) (name : String) (low high : Int) :
    checkValue val name ⟨low, high, false⟩ = .ok () ↔ low ≤ val ∧ val ≤ high := by
  have admits : (Range.mk low high false).Admits val ↔ low ≤ val ∧ val ≤ high := by
    simp [Range.Admits, Rat.intCast_le_intCast]
  rw [checkValue, ← admits]
  split
  · next inside => exact iff_of_true rfl inside
  · next outside => exact iff_of_false nofun outside

theorem checkDate_eq_ok_iff (date : Gregorian.Date) : checkDate date = .ok () ↔ date.Valid := by
  rw [checkDate]
  cases month : checkValue date.month "month" ⟨1, 12, false⟩ with
  | error failure =>
    refine iff_of_false nofun fun valid => ?_
    have admitted := (checkValue_eq_ok_iff date.month "month" 1 12).mpr valid.month
    rw [month] at admitted
    cases admitted
  | ok _ =>
    have range := (checkValue_eq_ok_iff date.month "month" 1 12).mp month
    refine (checkValue_eq_ok_iff _ _ _ _).trans ?_
    rw [daysInMonth_eq]
    exact ⟨fun day => ⟨range, day⟩, fun valid => valid.day⟩

theorem yearDivisions (year : Int) : 365 * year + div year 4 - div year 100 + div year 400 =
      yearStart year + if Exact year then 0 else 1 := by
  rw [yearStart]
  rcases div_cases year 4 with ⟨nonneg, four⟩ | ⟨neg, four⟩
  · rw [four, div_of_nonneg nonneg, div_of_nonneg nonneg, if_pos (.inl nonneg), Int.add_zero]
  rw [four, div_of_neg neg, div_of_neg neg]
  by_cases leap : IsLeap year
  · rw [if_pos (.inr leap)]
    rw [IsLeap] at leap
    omega
  rw [if_neg (fun exact => exact.elim (by omega) leap)]
  rw [IsLeap] at leap
  omega

variable {date : Gregorian.Date} {daycount day : Int}

theorem daycountFromYmd_eq (valid : date.Valid) :
    daycountFromYmd date = date.number + if Exact date.marchYear then 0 else 1 := by
  have monthRange := valid.month
  have years := yearDivisions date.marchYear
  rw [Gregorian.Date.number, daycountFromYmd]
  rcases date.march_cases with ⟨early, year, month⟩ | ⟨late, year, month⟩
  · have positive : 0 ≤ 153 * (date.month + 12) - 2 := by omega
    rw [if_pos early, daycountFromYmd.formula, div_of_nonneg positive, month, monthStart]
    rw [year] at years ⊢
    omega
  have positive : 0 ≤ 153 * date.month - 2 := by omega
  rw [if_neg (by omega), daycountFromYmd.formula, div_of_nonneg positive, month, monthStart]
  rw [year] at years ⊢
  omega

/-- The formula for the date without the bounds of an `int`, from the days since March of the
year 0. -/
def truncatedDate (day : Int) : Gregorian.Date :=
  let century := div (4 * (day + 36525)) 146097 - 1
  let day := day - centuryStart century
  let year := div (4 * (day + 366)) 1461 - 1
  let day := day - yearInCentury year
  let month := div (5 * day + 2) 153
  ofMarch (100 * century + year) (month + 3) (day - (div (2 + month * 153) 5 - 1))

/-- The days from March of the year 0, as the additions leave them that start the formula. -/
def dayKept (daycount : Int) : Int := native (daycount + 715406) - 36525

theorem ymdFromDaycount_eq (daycount : Int) :
    ymdFromDaycount daycount = truncatedDate (dayKept daycount) := by
  obtain ⟨day, dayEq⟩ : ∃ day, day = dayKept daycount := ⟨_, rfl⟩
  obtain ⟨century, day', year, dayOfYear, month, centuryEq, dayEq', yearEq, dayOfYearEq, monthEq⟩ :=
    Gregorian.exists_steps div day
  have start := native_range (daycount + 715406)
  rw [dayKept] at dayEq
  have centuryRange : -500000000000000 < century ∧ century < 500000000000000 := by
    rcases div_cases (4 * (day + 36525)) 146097 with ⟨_, eq⟩ | ⟨_, eq⟩ <;> omega
  have dayRange : -36526 ≤ day' ∧ day' ≤ 36526 := by
    rw [centuryStart] at dayEq'
    rcases div_cases (4 * (day + 36525)) 146097 with ⟨_, eq⟩ | ⟨_, eq⟩ <;> omega
  have yearRange : -200 < year ∧ year < 200 := by
    rcases div_cases (4 * (day' + 366)) 1461 with ⟨_, eq⟩ | ⟨_, eq⟩ <;> omega
  have dayOfYearRange : -500 < dayOfYear ∧ dayOfYear < 500 := by
    rw [yearInCentury] at dayOfYearEq
    rcases div_cases (4 * (day' + 366)) 1461 with ⟨_, eq⟩ | ⟨_, eq⟩ <;> omega
  have monthRange : -20 < month ∧ month < 20 := by
    rcases div_cases (5 * dayOfYear + 2) 153 with ⟨_, eq⟩ | ⟨_, eq⟩ <;> omega
  have monthDays : -600 < div (2 + month * 153) 5 ∧ div (2 + month * 153) 5 < 700 := by
    rcases div_cases (2 + month * 153) 5 with ⟨_, eq⟩ | ⟨_, eq⟩ <;> omega
  obtain ⟨q, shifted⟩ := exists_native_eq (daycount + 715406)
  have first : native (native (daycount + 678881) + 36525) = day + 36525 := by
    rw [native_add_native]
    exact native_eq_of_shifted (-q) (by omega) (by omega) (by omega)
  have second : native (native (daycount + 678881) -
      native (native (36524 * century) + century / 4)) = day' := by
    rw [native_add_native, native_sub_native, Int.sub_eq_add_neg, native_add_native]
    rw [centuryStart] at dayEq'
    exact native_eq_of_shifted (-q) (by omega) (by omega) (by omega)
  have third : native (day' - native (native (365 * year) + year / 4)) = dayOfYear := by
    rw [native_add_native, native_sub_native]
    rw [yearInCentury] at dayOfYearEq
    exact native_eq_of_shifted 0 (by omega) (by omega) (by omega)
  have fits : ∀ i, -9223372036854775808 ≤ i ∧ i < 9223372036854775808 → native i = i :=
    fun i range => native_of_range range.1 range.2
  simp only [ymdFromDaycount, first, ← centuryEq, fits century (by omega), second,
    fits (day' + 366) (by omega), ← yearEq, fits year (by omega), third,
    fits (5 * dayOfYear) (by omega), ← monthEq, fits month (by omega),
      fits (month * 153) (by omega),
    fits (100 * century) (by omega), fits (100 * century + year) (by omega),
    fits (100 * century + year + 1) (by omega), fits (month - 12) (by omega),
    fits (month + 3) (by omega), fits (month - 12 + 3) (by omega),
    fits (dayOfYear - (div (2 + month * 153) 5 - 1)) (by omega)]
  simp only [truncatedDate, dayKept, ← dayEq, ← centuryEq, ← dayEq', ← yearEq, ← dayOfYearEq,
    ← monthEq, ofMarch]
  by_cases late : 9 < month
  · rw [if_pos late, if_pos (by omega)]
    congr 1
    omega
  · rw [if_neg late, if_neg (by omega)]

/-- From March of the year -100 on, the formula is that of the calendar. -/
theorem truncatedDate_of_late (late : -36525 ≤ day) :
    truncatedDate day = ofNumber (day - 678881) := by
  obtain ⟨century, day', year, dayOfYear, month, centuryEq, dayEq', yearEq, dayOfYearEq, monthEq⟩ :=
    Gregorian.exists_steps HDiv.hDiv day
  have steps := Gregorian.steps_spec centuryEq dayEq' yearEq dayOfYearEq
  have fromCentury : div (4 * (day + 36525)) 146097 - 1 = century := by
    rw [div_of_nonneg (by omega), centuryEq]
  have fromYear : div (4 * (day' + 366)) 1461 - 1 = year := by
    rw [div_of_nonneg (by omega), yearEq]
  have fromMonth : div (5 * dayOfYear + 2) 153 = month := by
    rw [div_of_nonneg (by omega), monthEq]
  have fromDay : div (2 + month * 153) 5 = (2 + month * 153) / 5 := div_of_nonneg (by omega)
  rw [Gregorian.ofNumber_eq_ofMarch (by omega : day = day - 678881 + 678881) centuryEq dayEq' yearEq
    dayOfYearEq monthEq]
  simp only [truncatedDate, fromCentury, ← dayEq', fromYear, ← dayOfYearEq, fromMonth, fromDay]

/-- Before March of the year -100, the few dates that the formula gets right are in common
years. -/
theorem truncatedDate_of_early (early : day < -36525) (first : 1 ≤ (truncatedDate day).day) :
    (truncatedDate day).marchYear < 0 ∧ ¬ IsLeap (truncatedDate day).marchYear ∧
      day - 678881 ≤ (truncatedDate day).number ∧ (truncatedDate day).number ≤ day - 678880 := by
  obtain ⟨century, day', year, dayOfYear, month, centuryEq, dayEq', yearEq, dayOfYearEq, monthEq⟩ :=
    Gregorian.exists_steps div day
  have date : truncatedDate day = ofMarch (100 * century + year) (month + 3)
      (dayOfYear - (div (2 + month * 153) 5 - 1)) := by
    simp only [truncatedDate, ← centuryEq, ← dayEq', ← yearEq, ← dayOfYearEq, ← monthEq]
  rw [date, Gregorian.ofMarch_day] at first
  rw [div_of_neg (by omega)] at centuryEq
  -- a day before the year began would come out as a day before the month began
  have notBefore : 0 ≤ dayOfYear := by
    by_contra before
    rcases div_cases (5 * dayOfYear + 2) 153 with ⟨_, eq⟩ | ⟨_, eq⟩ <;>
      rcases div_cases (2 + month * 153) 5 with ⟨_, eq'⟩ | ⟨_, eq'⟩ <;> omega
  rw [centuryStart] at dayEq'
  rw [yearInCentury] at dayOfYearEq
  have years : day' = 0 ∧ year = 0 ∧ century % 4 = 3 ∨ year % 4 = 3 ∧ -100 ≤ year ∧ year ≤ -1 := by
    rcases div_cases (4 * (day' + 366)) 1461 with ⟨_, eq⟩ | ⟨_, eq⟩
    · by_cases last : day' = 0
      · refine .inl ⟨last, ?_, ?_⟩
        · omega
        · omega
      right
      have start : 4 * (day' + 366) / 1461 = 0 := by omega
      omega
    · right
      omega
  have short : dayOfYear ≤ 366 := by
    rcases years with ⟨_, _, _⟩ | ⟨_, _, _⟩
    · omega
    · rcases div_cases (4 * (day' + 366)) 1461 with ⟨_, eq⟩ | ⟨_, eq⟩ <;> omega
  have monthRange : 0 ≤ month ∧ month ≤ 11 ∧ div (2 + month * 153) 5 = (2 + month * 153) / 5 := by
    rw [div_of_nonneg (by omega)] at monthEq
    refine ⟨by omega, by omega, div_of_nonneg (by omega)⟩
  have neg : 100 * century + year < 0 := by omega
  have common : ¬ IsLeap (100 * century + year) := by
    rw [IsLeap]
    omega
  rw [date, (Gregorian.ofMarch_march (by omega) (by omega)).1,
    Gregorian.ofMarch_number (by omega) (by omega), monthRange.2.2, monthStart, yearStart]
  refine ⟨neg, common, ?_⟩
  have monthDays : (153 * (month + 3) - 2) / 5 = (2 + month * 153) / 5 + 91 := by omega
  have four : (100 * century + year) / 4 = 25 * century + year / 4 := by omega
  rw [monthDays, four]
  rcases years with ⟨_, _, _⟩ | ⟨_, _, _⟩
  · omega
  have hundred : (100 * century + year) / 100 = century - 1 := by omega
  have fourHundred : (100 * century + year) / 400 = (century - 1) / 4 := by omega
  rw [hundred, fourHundred]
  omega

/-- The dates that come back from their counts. -/
def Faithful (date : Gregorian.Date) : Prop :=
  0 ≤ date.marchYear ∨ -100 ≤ date.marchYear ∧ IsLeap date.marchYear

theorem Faithful.exact (faithful : Faithful date) : Exact date.marchYear :=
  faithful.imp_right And.right

theorem marchYear_iff (valid : date.Valid) : -100 ≤ date.marchYear ↔ -715406 ≤ date.number :=
  valid.le_marchYear_iff (-100)

theorem dayKept_of_range (low : -715406 ≤ daycount)
    (high : daycount < 9223372036854060402) : dayKept daycount = daycount + 678881 := by
  rw [dayKept, native_of_range (by omega) (by omega)]
  omega

/-- Where the count of a date is one that an `int` can hold, the date has this count. -/
theorem ymdFromDaycount_of_range (low : -715406 ≤ daycount)
    (high : daycount < 9223372036854060402) : ymdFromDaycount daycount = ofNumber daycount := by
  have kept := dayKept_of_range low high
  rw [ymdFromDaycount_eq, truncatedDate_of_late (by omega), kept]
  congr 1
  omega

theorem ymdFromDaycount_cases (valid : (ymdFromDaycount daycount).Valid) :
    -36525 ≤ dayKept daycount ∧ ymdFromDaycount daycount = ofNumber (dayKept daycount - 678881) ∨
      dayKept daycount < -36525 ∧ ¬ Exact (ymdFromDaycount daycount).marchYear ∧
        dayKept daycount - 678881 ≤ (ymdFromDaycount daycount).number ∧
        (ymdFromDaycount daycount).number ≤ dayKept daycount - 678880 := by
  have day := valid.day.1
  rw [ymdFromDaycount_eq] at day ⊢
  rcases Int.lt_or_le (dayKept daycount) (-36525) with early | late
  · rcases truncatedDate_of_early early day with ⟨neg, common, low, high⟩
    exact .inr ⟨early, fun exact => exact.elim (by omega) common, low, high⟩
  · exact .inl ⟨late, truncatedDate_of_late late⟩

theorem exists_dayKept_eq (daycount : Int) :
    ∃ q, dayKept daycount - 678881 = daycount + 18446744073709551616 * q := by
  rcases exists_native_eq (daycount + 715406) with ⟨q, eq⟩
  exact ⟨q, by rw [dayKept, eq]; omega⟩

theorem daycount_roundTrips_iff (daycount : Int) :
    (ymdFromDaycount daycount).Valid ∧ daycountFromYmd (ymdFromDaycount daycount) = daycount ↔
      Faithful (ofNumber daycount) ∧ daycount < 9223372036854060402 := by
  have spec := Gregorian.ofNumber_spec daycount
  constructor
  · rintro ⟨valid, count⟩
    rw [daycountFromYmd_eq valid] at count
    rcases exists_dayKept_eq daycount with ⟨q, shifted⟩
    have range := native_range (daycount + 715406)
    rcases ymdFromDaycount_cases valid with ⟨late, eq⟩ | ⟨early, common, low, high⟩
    · rw [eq, (Gregorian.ofNumber_spec _).2] at count
      by_cases exact : Exact (ofNumber (dayKept daycount - 678881)).marchYear
      · rw [if_pos exact] at count
        have same : dayKept daycount - 678881 = daycount := by omega
        rw [same] at exact
        rw [dayKept] at same late
        have year := (marchYear_iff spec.1).mpr (by rw [spec.2]; omega)
        exact ⟨exact.imp_right fun leap => ⟨year, leap⟩, by omega⟩
      · rw [if_neg exact] at count
        omega
    · rw [if_neg common] at count
      omega
  · rintro ⟨faithful, high⟩
    have year : -100 ≤ (ofNumber daycount).marchYear :=
      faithful.elim (fun nonneg => by omega) And.left
    have low := (marchYear_iff spec.1).mp year
    rw [spec.2] at low
    rw [ymdFromDaycount_of_range low high, daycountFromYmd_eq spec.1, spec.2, if_pos faithful.exact]
    exact ⟨spec.1, Int.add_zero daycount⟩

theorem date_roundTrips_iff (valid : date.Valid) : ymdFromDaycount (daycountFromYmd date) = date ↔
      Faithful date ∧ date.number < 9223372036854060402 := by
  constructor
  · intro same
    have valid' : (ymdFromDaycount (daycountFromYmd date)).Valid := by
      rw [same]
      exact valid
    have trip := (daycount_roundTrips_iff (daycountFromYmd date)).mp ⟨valid', by rw [same]⟩
    have year : -100 ≤ (ofNumber (daycountFromYmd date)).marchYear :=
      trip.1.elim (fun nonneg => by omega) And.left
    have spec := Gregorian.ofNumber_spec (daycountFromYmd date)
    have low := (marchYear_iff spec.1).mp year
    rw [spec.2] at low
    rw [ymdFromDaycount_of_range low trip.2] at same
    rw [same] at trip spec
    rw [spec.2]
    exact trip
  rintro ⟨faithful, high⟩
  have count : daycountFromYmd date = date.number := by
    rw [daycountFromYmd_eq valid, if_pos faithful.exact, Int.add_zero]
  have year : -100 ≤ date.marchYear := faithful.elim (fun nonneg => by omega) And.left
  rw [count, ymdFromDaycount_of_range ((marchYear_iff valid).mp year) high,
    Gregorian.ofNumber_number valid]

theorem daycount_next_iff (valid : date.Valid) :
    daycountFromYmd date.next = daycountFromYmd date + 1 ↔
      (Exact date.marchYear ↔ Exact date.next.marchYear) := by
  rw [daycountFromYmd_eq valid, daycountFromYmd_eq valid.next, valid.number_next]
  by_cases exact : Exact date.marchYear
  · rw [if_pos exact, iff_true_left exact]
    split
    · next exact' => exact iff_of_true (by omega) exact'
    · next common => exact iff_of_false (by omega) common
  rw [if_neg exact, iff_false_left exact]
  split
  · next exact' => exact iff_of_false (by omega) (not_not.mpr exact')
  · next common => exact iff_of_true (by omega) common

end RakudoStar.Temporal
