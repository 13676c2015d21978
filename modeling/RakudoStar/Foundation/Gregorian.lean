import Mathlib.Tactic.ByContra

/-!
# The Gregorian calendar

Dates of the proleptic calendar and their numbers. Months are counted from March on, so that the
leap day ends a year.
-/

namespace RakudoStar.Foundation.Gregorian

structure Date where
  year : Int
  month : Int
  day : Int
  deriving DecidableEq, Repr

def IsLeap (year : Int) : Prop := year % 4 = 0 ∧ year % 100 ≠ 0 ∨ year % 400 = 0

instance (year : Int) : Decidable (IsLeap year) := inferInstanceAs (Decidable (_ ∨ _))

def monthLength (year month : Int) : Int :=
  if month = 2 then (if IsLeap year then 29 else 28)
  else if month = 4 ∨ month = 6 ∨ month = 9 ∨ month = 11 then 30 else 31

structure Date.Valid (date : Date) : Prop where
  month : 1 ≤ date.month ∧ date.month ≤ 12
  day : 1 ≤ date.day ∧ date.day ≤ monthLength date.year date.month

/-- The day after. -/
def Date.next (date : Date) : Date :=
  if date.day < monthLength date.year date.month then { date with day := date.day + 1 }
  else if date.month < 12 then ⟨date.year, date.month + 1, 1⟩
  else ⟨date.year + 1, 1, 1⟩

/-- The order of the dates in time. -/
def Date.Before (first second : Date) : Prop :=
  first.year < second.year ∨ first.year = second.year ∧ (first.month < second.month ∨
    first.month = second.month ∧ first.day < second.day)

def Date.marchYear (date : Date) : Int := if date.month < 3 then date.year - 1 else date.year

/-- The month in the year that began in March, where January is number 13. -/
def Date.marchMonth (date : Date) : Int := if date.month < 3 then date.month + 12 else date.month

def yearStart (year : Int) : Int := 365 * year + year / 4 - year / 100 + year / 400

/-- The days from March to a month, and 91 more. -/
def monthStart (month : Int) : Int := (153 * month - 2) / 5

def Date.number (date : Date) : Int :=
  yearStart date.marchYear + monthStart date.marchMonth + date.day - 678973

theorem yearStart_succ (year : Int) :
    yearStart (year + 1) = yearStart year + if IsLeap (year + 1) then 366 else 365 := by
  rw [yearStart, yearStart]
  split
  · next leap =>
      rw [IsLeap] at leap
      omega
  next common =>
    rw [IsLeap] at common
    omega

variable {date : Date} {year month day dayOfYear century day' : Int} {first second : Date}

theorem Date.Valid.inYear (valid : date.Valid) :
    yearStart date.marchYear ≤ monthStart date.marchMonth + date.day - 92 +
      yearStart date.marchYear ∧
      monthStart date.marchMonth + date.day - 92 + yearStart date.marchYear <
        yearStart (date.marchYear + 1) := by
  rcases valid with ⟨⟨monthLow, monthHigh⟩, dayLow, dayHigh⟩
  rcases date with ⟨year, month, day⟩
  rw [yearStart_succ]
  simp only [marchYear, marchMonth, monthStart, monthLength] at *
  split at dayHigh
  · subst month
    simp at *
    split at dayHigh
    · next leap =>
      rw [if_pos leap]
      omega
    next leap =>
    rw [if_neg leap]
    omega
  · split at dayHigh <;> split <;> split <;> omega

theorem yearStart_mono {first second : Int} (le : first ≤ second) :
    yearStart first ≤ yearStart second := by
  rw [yearStart, yearStart]
  omega

theorem Date.march_cases (date : Date) :
    date.month < 3 ∧ date.marchYear = date.year - 1 ∧ date.marchMonth = date.month + 12 ∨
      3 ≤ date.month ∧ date.marchYear = date.year ∧ date.marchMonth = date.month := by
  rw [marchYear, marchMonth]
  split
  · next early => exact .inl ⟨early, rfl, rfl⟩
  · next late => exact .inr ⟨Int.not_lt.mp late, rfl, rfl⟩

theorem Date.monthStart_succ (month : 1 ≤ date.month ∧ date.month ≤ 12)
    (notFebruary : date.month ≠ 2) : monthStart (date.marchMonth + 1) =
      monthStart date.marchMonth + monthLength date.year date.month := by
  rcases date with ⟨year, month', day⟩
  dsimp only at month notFebruary
  have cases : month' = 1 ∨ month' = 3 ∨ month' = 4 ∨ month' = 5 ∨ month' = 6 ∨ month' = 7 ∨
      month' = 8 ∨ month' = 9 ∨ month' = 10 ∨ month' = 11 ∨ month' = 12 := by omega
  rcases cases with rfl | rfl | rfl | rfl | rfl | rfl | rfl | rfl | rfl | rfl | rfl <;> rfl

theorem Date.Valid.le_marchYear_iff (valid : date.Valid) (year : Int) :
    year ≤ date.marchYear ↔ yearStart year - 678881 ≤ date.number := by
  have inYear := valid.inYear
  rw [number]
  constructor
  · intro late
    have mono := yearStart_mono late
    omega
  intro late
  by_contra early
  have mono := @yearStart_mono (date.marchYear + 1) year (by omega)
  omega

theorem monthStart_mono {first second : Int} (le : first ≤ second) :
    monthStart first ≤ monthStart second := by
  rw [monthStart, monthStart]
  omega

theorem Date.Valid.number_next (valid : date.Valid) : date.next.number = date.number + 1 := by
  rw [next]
  split
  · simp only [number, marchYear, marchMonth]
    omega
  next last =>
    have dayEq := Int.le_antisymm valid.day.2 (Int.not_lt.mp last)
    have monthRange := valid.month
    split
    · next notDecember =>
        rw [number, number]
        rcases date.march_cases with ⟨early, year, month⟩ | ⟨late, year, month⟩
        · rw [year, month, dayEq]
          by_cases february : date.month = 2
          · have start := yearStart_succ (date.year - 1)
            rw [Int.sub_add_cancel] at start
            rw [february] at dayEq ⊢
            simp only [marchYear, marchMonth, monthLength, monthStart]
            rw [if_neg (by omega), if_neg (by omega), start, if_pos trivial]
            split <;> omega
          · have january : date.month = 1 := by omega
            simp [marchYear, marchMonth, january, monthLength, monthStart]
            omega
        have start := monthStart_succ monthRange (by omega)
        rw [month] at start
        rw [year, month, dayEq, marchYear, marchMonth]
        dsimp only
        rw [if_neg (by omega), if_neg (by omega), start]
        omega
    · next december =>
        have monthEq : date.month = 12 := by omega
        rw [monthEq] at dayEq
        simp [number, marchYear, marchMonth, monthEq, dayEq, monthLength, monthStart]
        omega

theorem monthLength_pos (year month : Int) : 1 ≤ monthLength year month := by
  rw [monthLength]
  split <;> split <;> decide

theorem Date.Valid.next (valid : date.Valid) : date.next.Valid := by
  have monthRange := valid.month
  have dayRange := valid.day
  rw [Date.next]
  split
  · exact ⟨monthRange, by dsimp only; omega⟩
  · split
    all_goals exact ⟨by dsimp only; omega, Int.le_refl 1, monthLength_pos _ _⟩

theorem number_lt_of_before (validFirst : first.Valid)
    (validSecond : second.Valid) (before : first.Before second) : first.number < second.number := by
  have monthRange := validFirst.month
  have monthRange' := validSecond.month
  have march := first.march_cases
  have march' := second.march_cases
  rw [Date.Before] at before
  rw [Date.number, Date.number]
  by_cases earlier : first.marchYear < second.marchYear
  · have mono := yearStart_mono (Int.add_one_le_of_lt earlier)
    have inYear := validFirst.inYear
    have inYear' := validSecond.inYear
    omega
  have sameYear : first.marchYear = second.marchYear := by omega
  rw [sameYear]
  by_cases earlierMonth : first.marchMonth < second.marchMonth
  · have mono := monthStart_mono (Int.add_one_le_of_lt earlierMonth)
    have start := Date.monthStart_succ monthRange (by omega)
    have dayRange := validFirst.day
    have dayRange' := validSecond.day
    omega
  · have sameMonth : first.marchMonth = second.marchMonth := by omega
    rw [sameMonth]
    omega

theorem eq_of_number_eq (validFirst : first.Valid)
    (validSecond : second.Valid) (same : first.number = second.number) : first = second := by
  have notBefore : ¬ first.Before second := fun before =>
    absurd (number_lt_of_before validFirst validSecond before) (by omega)
  have notAfter : ¬ second.Before first := fun after =>
    absurd (number_lt_of_before validSecond validFirst after) (by omega)
  rcases first with ⟨year, month, day⟩
  rcases second with ⟨year', month', day'⟩
  simp only [Date.Before, Date.mk.injEq] at *
  omega

theorem number_lt_iff (validFirst : first.Valid)
    (validSecond : second.Valid) : first.number < second.number ↔ first.Before second := by
  refine ⟨fun lt => ?_, number_lt_of_before validFirst validSecond⟩
  by_contra notBefore
  by_cases after : second.Before first
  · exact absurd (number_lt_of_before validSecond validFirst after) (by omega)
  rcases first with ⟨year, month, day⟩
  rcases second with ⟨year', month', day'⟩
  simp only [Date.Before] at notBefore after
  have same : year = year' ∧ month = month' ∧ day = day' := by omega
  rcases same with ⟨rfl, rfl, rfl⟩
  exact Int.lt_irrefl _ lt

/-- The days from March of the year 0 to March of the first year of a century. -/
def centuryStart (century : Int) : Int := 36524 * century + century / 4

/-- The days from March of the first year of a century to March of another one. -/
def yearInCentury (year : Int) : Int := 365 * year + year / 4

def ofNumber (number : Int) : Date :=
  let day := number + 678881
  let century := 4 * (day + 36525) / 146097 - 1
  let day := day - centuryStart century
  let year := 4 * (day + 366) / 1461 - 1
  let day := day - yearInCentury year
  let month := (5 * day + 2) / 153
  let day := day - ((2 + month * 153) / 5 - 1)
  if 9 < month then ⟨100 * century + year + 1, month - 9, day⟩
  else ⟨100 * century + year, month + 3, day⟩

theorem century_spec (day : Int) : centuryStart (4 * (day + 36525) / 146097 - 1) ≤ day ∧
      day < centuryStart (4 * (day + 36525) / 146097) := by
  rw [centuryStart, centuryStart]
  omega

theorem year_spec (low : 0 ≤ day) (high : day ≤ 36524) :
    0 ≤ 4 * (day + 366) / 1461 - 1 ∧ 4 * (day + 366) / 1461 ≤ 100 ∧
      yearInCentury (4 * (day + 366) / 1461 - 1) ≤ day ∧
      day < yearInCentury (4 * (day + 366) / 1461) := by
  rw [yearInCentury, yearInCentury]
  omega

theorem month_spec {day : Int} (low : 0 ≤ day) (high : day ≤ 365) :
    0 ≤ (5 * day + 2) / 153 ∧ (5 * day + 2) / 153 ≤ 11 ∧
      monthStart ((5 * day + 2) / 153 + 3) ≤ day + 91 ∧
      day + 91 < monthStart ((5 * day + 2) / 153 + 4) := by
  rw [monthStart, monthStart]
  omega

theorem yearStart_century {century year : Int} (low : 0 ≤ year) (high : year ≤ 99) :
    yearStart (100 * century + year) = centuryStart century + yearInCentury year := by
  rw [yearStart, centuryStart, yearInCentury]
  omega

theorem inYear_of_century {century year day : Int} (low : 0 ≤ year) (high : year ≤ 99)
    (inCentury : day + centuryStart century < centuryStart (century + 1))
    (inYear : day < yearInCentury (year + 1)) :
    day + centuryStart century < yearStart (100 * century + year + 1) := by
  by_cases last : year = 99
  · have next : 100 * century + year + 1 = 100 * (century + 1) + 0 := by omega
    rw [next, yearStart_century (Int.le_refl 0) (by omega)]
    exact Int.lt_of_lt_of_le inCentury (by rw [yearInCentury]; omega)
  · rw [Int.add_assoc, yearStart_century (by omega) (by omega)]
    omega

/-- A day of a March year, as a date. -/
def ofMarch (year month day : Int) : Date :=
  if 12 < month then ⟨year + 1, month - 12, day⟩ else ⟨year, month, day⟩

theorem ofMarch_march (low : 3 ≤ month) (high : month ≤ 14) :
    (ofMarch year month day).marchYear = year ∧ (ofMarch year month day).marchMonth = month := by
  rw [Date.marchYear, Date.marchMonth, ofMarch]
  split
  · dsimp only
    rw [if_pos (by omega), if_pos (by omega)]
    omega
  dsimp only
  rw [if_neg (by omega), if_neg (by omega)]
  omega

theorem ofMarch_day (year month day : Int) : (ofMarch year month day).day = day := by
  rw [ofMarch]
  split <;> rfl

theorem ofMarch_number (low : 3 ≤ month) (high : month ≤ 14) :
    (ofMarch year month day).number = yearStart year + monthStart month + day - 678973 := by
  rw [Date.number, (ofMarch_march low high).1, (ofMarch_march low high).2, ofMarch_day]

theorem ofMarch_valid (low : 3 ≤ month) (high : month ≤ 14)
    (first : 1 ≤ day) (last : monthStart month + day ≤ monthStart (month + 1))
    (inYear : yearStart year + monthStart month + day - 92 < yearStart (year + 1)) :
    (ofMarch year month day).Valid := by
  have range : 1 ≤ (ofMarch year month day).month ∧ (ofMarch year month day).month ≤ 12 := by
    rw [ofMarch]
    split
    · dsimp only
      omega
    · dsimp only
      omega
  refine ⟨range, ?_, ?_⟩
  · rwa [ofMarch_day]
  by_cases february : (ofMarch year month day).month = 2
  · have monthEq : month = 14 ∧ (ofMarch year month day).year = year + 1 := by
      rw [ofMarch] at february ⊢
      split at february
      · dsimp only at february
        rw [if_pos (by omega)]
        exact ⟨by omega, rfl⟩
      · dsimp only at february
        omega
    rw [february, monthEq.2, ofMarch_day, monthLength, if_pos rfl]
    rw [yearStart_succ, monthEq.1, monthStart] at inYear
    split
    · next leap =>
        rw [if_pos leap] at inYear
        omega
    next common =>
      rw [if_neg common] at inYear
      omega
  · have start := Date.monthStart_succ range february
    rw [(ofMarch_march low high).2] at start
    rw [ofMarch_day]
    omega

theorem ofNumber_eq_ofMarch {number : Int}
    (dayEq : day = number + 678881) (centuryEq : century = 4 * (day + 36525) / 146097 - 1)
    (dayEq' : day' = day - centuryStart century) (yearEq : year = 4 * (day' + 366) / 1461 - 1)
    (dayOfYearEq : dayOfYear = day' - yearInCentury year)
    (monthEq : month = (5 * dayOfYear + 2) / 153) :
    ofNumber number = ofMarch (100 * century + year) (month + 3)
      (dayOfYear - ((2 + month * 153) / 5 - 1)) := by
  simp only [ofNumber, ← dayEq, ← centuryEq, ← dayEq', ← yearEq, ← dayOfYearEq, ← monthEq, ofMarch]
  by_cases late : 9 < month
  · rw [if_pos late, if_pos (by omega)]
    congr 1
    omega
  · rw [if_neg late, if_neg (by omega)]

theorem exists_steps (div : Int → Int → Int) (day : Int) :
    ∃ century day' year dayOfYear month, century = div (4 * (day + 36525)) 146097 - 1 ∧
      day' = day - centuryStart century ∧ year = div (4 * (day' + 366)) 1461 - 1 ∧
      dayOfYear = day' - yearInCentury year ∧ month = div (5 * dayOfYear + 2) 153 :=
  ⟨_, _, _, _, _, rfl, rfl, rfl, rfl, rfl⟩

theorem steps_spec (centuryEq : century = 4 * (day + 36525) / 146097 - 1)
    (dayEq' : day' = day - centuryStart century) (yearEq : year = 4 * (day' + 366) / 1461 - 1)
    (dayOfYearEq : dayOfYear = day' - yearInCentury year) :
    0 ≤ day' ∧ day' ≤ 36524 ∧ day < centuryStart (century + 1) ∧ 0 ≤ year ∧ year ≤ 99 ∧
      day' < yearInCentury (year + 1) ∧ 0 ≤ dayOfYear ∧ dayOfYear ≤ 365 := by
  have inCentury := century_spec day
  have next : 4 * (day + 36525) / 146097 = century + 1 := by omega
  rw [next, Int.add_sub_cancel] at inCentury
  have centuryLength : centuryStart (century + 1) ≤ centuryStart century + 36525 := by
    rw [centuryStart, centuryStart]
    omega
  have inYear := @year_spec day' (by omega) (by omega)
  have nextYear : 4 * (day' + 366) / 1461 = year + 1 := by omega
  rw [nextYear, Int.add_sub_cancel] at inYear
  have yearLength : yearInCentury (year + 1) ≤ yearInCentury year + 366 := by
    rw [yearInCentury, yearInCentury]
    omega
  omega

theorem ofNumber_spec (number : Int) :
    (ofNumber number).Valid ∧ (ofNumber number).number = number := by
  obtain ⟨day, dayEq⟩ : ∃ day, day = number + 678881 := ⟨_, rfl⟩
  obtain ⟨century, day', year, dayOfYear, month, centuryEq, dayEq', yearEq, dayOfYearEq, monthEq⟩ :=
    exists_steps HDiv.hDiv day
  have steps := steps_spec centuryEq dayEq' yearEq dayOfYearEq
  have inMonth := @month_spec dayOfYear (by omega) (by omega)
  rw [← monthEq] at inMonth
  have start := @yearStart_century century year (by omega) (by omega)
  have next := @inYear_of_century century year day' (by omega) (by omega) (by omega) (by omega)
  have first : monthStart (month + 3) = (2 + month * 153) / 5 + 91 := by
    rw [monthStart]
    omega
  rw [ofNumber_eq_ofMarch dayEq centuryEq dayEq' yearEq dayOfYearEq monthEq,
    ofMarch_number (by omega) (by omega)]
  constructor
  · refine ofMarch_valid (by omega) (by omega) (by omega) ?_ (by omega)
    have later : month + 3 + 1 = month + 4 := Int.add_assoc month 3 1
    rw [later]
    omega
  · omega

theorem ofNumber_number (valid : date.Valid) : ofNumber date.number = date :=
  eq_of_number_eq (ofNumber_spec _).1 valid (ofNumber_spec _).2

end RakudoStar.Foundation.Gregorian
