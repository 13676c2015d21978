import Mathlib.Data.Int.CardIntervalMod
import Mathlib.Data.Set.Card
import RakudoStar.Temporal.Daycount

/-!
# Weeks

A week goes from Monday to Sunday and belongs to the year of its Thursday.
-/

namespace RakudoStar.Temporal

open Foundation Finset
open Foundation.Gregorian (IsLeap yearStart monthStart ofNumber)

def week (date : Gregorian.Date) : Int × Int :=
  let a := date.year - if date.month ≤ 2 then 1 else 0
  let b := div a 4 - div a 100 + div a 400
  let c := div (a - 1) 4 - div (a - 1) 100 + div (a - 1) 400
  let s := b - c
  let e := if date.month ≤ 2 then 0 else s + 1
  let f := date.day + if date.month ≤ 2 then 31 * (date.month - 1) - 1
    else div (153 * (date.month - 3) + 2) 5 + 58 + s
  let g := (a + b) % 7
  let d := (f + g - e) % 7
  let n := f + 3 - d
  if n < 0 then (date.year - 1, 53 - div (g - s) 5)
  else if n > 364 + s then (date.year + 1, 1)
  else (date.year, div n 7 + 1)

/-- The Thursday in the week of a day. -/
def thursdayOf (number : Int) : Int := number - dayOfWeek number + 4

/-- The days of a year before a Thursday that are Thursdays as well. -/
def earlierThursdays (year thursday : Int) : Set Int :=
  { number | Gregorian.Date.number ⟨year, 1, 1⟩ ≤ number ∧ number < thursday ∧
    dayOfWeek number = 4 }

structure IsoWeek (date : Gregorian.Date) (week : Int × Int) : Prop where
  year : (ofNumber (thursdayOf date.number)).year = week.1
  number : week.2 = 1 + (earlierThursdays week.1 (thursdayOf date.number)).ncard

theorem newYear_number (year : Int) :
    Gregorian.Date.number ⟨year, 1, 1⟩ = yearStart (year - 1) - 678575 := by
  simp [Gregorian.Date.number, Gregorian.Date.marchYear, Gregorian.Date.marchMonth, monthStart]
  omega

theorem newYear_valid (year : Int) : Gregorian.Date.Valid ⟨year, 1, 1⟩ :=
  ⟨⟨le_refl 1, by simp⟩, le_refl 1, Gregorian.monthLength_pos year 1⟩

theorem year_ofNumber {number year : Int} (low : Gregorian.Date.number ⟨year, 1, 1⟩ ≤ number)
    (high : number < Gregorian.Date.number ⟨year + 1, 1, 1⟩) : (ofNumber number).year = year := by
  have spec := Gregorian.ofNumber_spec number
  have monthRange := spec.1.month
  have dayRange := spec.1.day
  have notBefore : ¬ (ofNumber number).Before ⟨year, 1, 1⟩ := by
    rw [← Gregorian.number_lt_iff spec.1 (newYear_valid year), spec.2]
    exact not_lt.mpr low
  have before : (ofNumber number).Before ⟨year + 1, 1, 1⟩ := by
    rw [← Gregorian.number_lt_iff spec.1 (newYear_valid (year + 1)), spec.2]
    exact high
  rw [Gregorian.Date.Before] at notBefore before
  dsimp only at notBefore before
  omega

theorem ncard_earlierThursdays {year thursday : Int} (isThursday : dayOfWeek thursday = 4)
    (low : Gregorian.Date.number ⟨year, 1, 1⟩ ≤ thursday) :
    ((earlierThursdays year thursday).ncard : Int) =
      (thursday - Gregorian.Date.number ⟨year, 1, 1⟩) / 7 := by
  have same : earlierThursdays year thursday = ↑((Finset.Ico (Gregorian.Date.number ⟨year, 1, 1⟩)
      thursday).filter (· ≡ thursday [ZMOD 7])) := by
    refine Set.ext fun number => ?_
    rw [dayOfWeek] at isThursday
    rw [mem_coe, mem_filter, mem_Ico, Int.ModEq]
    change _ ∧ _ ∧ (number + 2) % 7 + 1 = 4 ↔ _
    omega
  have steps : ⌈((Gregorian.Date.number ⟨year, 1, 1⟩ : ℚ) - thursday) / (7 : Int)⌉ =
      -((thursday - Gregorian.Date.number ⟨year, 1, 1⟩) / 7) := by
    rw [← neg_sub (thursday : ℚ), neg_div, Int.ceil_neg, ← Int.cast_sub]
    exact congrArg Neg.neg (Rat.floor_intCast_div_natCast _ 7)
  rw [same, Set.ncard_coe_finset, Int.Ico_filter_modEq_card _ _ (by decide), steps, sub_self,
    zero_div, Int.ceil_zero, zero_sub, neg_neg]
  exact max_eq_left (Int.ediv_nonneg (sub_nonneg.mpr low) (by decide))

/-- The days of a year above 365. -/
def leapDays (year : Int) : Int := if IsLeap year then 1 else 0

theorem leapDays_cases (year : Int) : leapDays year = 0 ∨ leapDays year = 1 := by
  rw [leapDays]
  split
  · exact .inr rfl
  · exact .inl rfl

theorem yearStart_eq_pred (year : Int) :
    yearStart year = yearStart (year - 1) + 365 + leapDays year := by
  have step := Gregorian.yearStart_succ (year - 1)
  rw [sub_add_cancel] at step
  rw [step, leapDays]
  split <;> omega

theorem yearStart_of_nonneg {year : Int} (nonneg : 0 ≤ year) :
    yearStart year = 365 * year + (div year 4 - div year 100 + div year 400) := by
  rw [yearStart, div_of_nonneg nonneg, div_of_nonneg nonneg, div_of_nonneg nonneg]
  omega

theorem week_of_steps {date : Gregorian.Date} {a b c s e f g d n : Int}
    (aEq : a = date.year - if date.month ≤ 2 then 1 else 0)
    (bEq : b = div a 4 - div a 100 + div a 400)
    (cEq : c = div (a - 1) 4 - div (a - 1) 100 + div (a - 1) 400) (sEq : s = b - c)
    (eEq : e = if date.month ≤ 2 then 0 else s + 1)
    (fEq : f = date.day + if date.month ≤ 2 then 31 * (date.month - 1) - 1
      else div (153 * (date.month - 3) + 2) 5 + 58 + s)
    (gEq : g = (a + b) % 7) (dEq : d = (f + g - e) % 7) (nEq : n = f + 3 - d) :
    week date = if n < 0 then (date.year - 1, 53 - div (g - s) 5)
      else if n > 364 + s then (date.year + 1, 1) else (date.year, div n 7 + 1) := by
  subst aEq bEq cEq sEq eEq fEq gEq dEq nEq
  rfl

/-- The days from New Year to the Thursday in the week of a date. -/
def thursdayInYear (date : Gregorian.Date) : Int :=
  thursdayOf date.number - Gregorian.Date.number ⟨date.year, 1, 1⟩

theorem steps_leapDays {a b c : Int} (nonneg : 0 ≤ a) (bEq : b = div a 4 - div a 100 + div a 400)
    (cEq : c = div (a - 1) 4 - div (a - 1) 100 + div (a - 1) 400) :
    a = 0 ∧ b = 0 ∧ b - c = 0 ∨ 1 ≤ a ∧ b - c = leapDays a := by
  by_cases first : a = 0
  · subst a
    subst bEq cEq
    exact .inl ⟨rfl, rfl, rfl⟩
  have step := yearStart_eq_pred a
  rw [yearStart_of_nonneg nonneg, yearStart_of_nonneg (by omega), ← bEq, ← cEq] at step
  exact .inr ⟨by omega, by omega⟩

variable {date : Gregorian.Date} (number : Int)

theorem thursdayInYear_eq {f g e : Int}
    (fEq : f = date.number - Gregorian.Date.number ⟨date.year, 1, 1⟩)
    (weekday : (yearStart (date.year - 1) - (g - e)) % 7 = 0) :
    thursdayInYear date = f + 3 - (f + g - e) % 7 := by
  rw [thursdayInYear, thursdayOf, dayOfWeek, newYear_number] at *
  omega

theorem number_sub_newYear_early (early : date.month ≤ 2) (positive : 1 ≤ date.month) :
    date.number - Gregorian.Date.number ⟨date.year, 1, 1⟩ =
      date.day + (31 * (date.month - 1) - 1) := by
  rw [newYear_number, Gregorian.Date.number]
  rcases date.march_cases with ⟨_, year, month⟩ | ⟨notEarly, year, month⟩
  · rw [year, month, monthStart]
    omega
  · omega

theorem number_sub_newYear_late (late : 3 ≤ date.month) :
    date.number - Gregorian.Date.number ⟨date.year, 1, 1⟩ =
      date.day + (div (153 * (date.month - 3) + 2) 5 + 58 + leapDays date.year) := by
  have step := yearStart_eq_pred date.year
  have nonneg : 0 ≤ 153 * (date.month - 3) + 2 := by omega
  rw [newYear_number, Gregorian.Date.number, div_of_nonneg nonneg]
  rcases date.march_cases with ⟨notLate, year, month⟩ | ⟨_, year, month⟩
  · omega
  · rw [year, month, monthStart]
    omega

section

variable (valid : date.Valid)

include valid

theorem number_sub_newYear_range : 0 ≤ date.number - Gregorian.Date.number ⟨date.year, 1, 1⟩ ∧
      date.number - Gregorian.Date.number ⟨date.year, 1, 1⟩ ≤ 364 + leapDays date.year := by
  have notBefore : ¬ date.Before ⟨date.year, 1, 1⟩ := by
    have monthRange := valid.month
    have dayRange := valid.day
    rw [Gregorian.Date.Before]
    dsimp only
    omega
  have before : date.Before ⟨date.year + 1, 1, 1⟩ := .inl (Int.lt_succ date.year)
  rw [← Gregorian.number_lt_iff valid (newYear_valid _)] at notBefore before
  have yearLength := yearStart_eq_pred date.year
  rw [newYear_number] at *
  rw [Int.add_sub_cancel] at before
  omega

theorem thursdayInYear_range :
    -3 ≤ thursdayInYear date ∧ thursdayInYear date ≤ 367 + leapDays date.year := by
  have range := number_sub_newYear_range valid
  rw [thursdayInYear, thursdayOf, dayOfWeek]
  omega

theorem week_early (late : 1 ≤ date.year) (early : date.month ≤ 2) : thursdayInYear date ≤ 364 ∧
      week date = if thursdayInYear date < 0
        then (date.year - 1, 1 + (thursdayInYear date + 365 + leapDays (date.year - 1)) / 7)
        else (date.year, thursdayInYear date / 7 + 1) := by
  have monthRange := valid.month
  have dayRange := valid.day
  obtain ⟨a, aEq⟩ : ∃ a, a = date.year - 1 := ⟨_, rfl⟩
  obtain ⟨b, bEq⟩ : ∃ b, b = div a 4 - div a 100 + div a 400 := ⟨_, rfl⟩
  obtain ⟨c, cEq⟩ : ∃ c, c = div (a - 1) 4 - div (a - 1) 100 + div (a - 1) 400 := ⟨_, rfl⟩
  obtain ⟨s, sEq⟩ : ∃ s, s = b - c := ⟨_, rfl⟩
  obtain ⟨f, fEq⟩ : ∃ f, f = date.day + (31 * (date.month - 1) - 1) := ⟨_, rfl⟩
  obtain ⟨g, gEq⟩ : ∃ g, g = (a + b) % 7 := ⟨_, rfl⟩
  obtain ⟨d, dEq⟩ : ∃ d, d = (f + g - 0) % 7 := ⟨_, rfl⟩
  obtain ⟨n, nEq⟩ : ∃ n, n = f + 3 - d := ⟨_, rfl⟩
  have inYear := number_sub_newYear_early early monthRange.1
  have dayHigh : date.day ≤ 31 := by
    have length : Gregorian.monthLength date.year date.month ≤ 31 := by
      rw [Gregorian.monthLength]
      split <;> split <;> decide
    omega
  have thursday : thursdayInYear date = n := by
    rw [nEq, dEq]
    refine thursdayInYear_eq (fEq.trans inYear.symm) ?_
    rw [← aEq, yearStart_of_nonneg (by omega), ← bEq]
    omega
  have steps := @week_of_steps date a b c s 0 f g d n (by rw [if_pos early]; exact aEq) bEq cEq
    sEq (by rw [if_pos early]) (by rw [if_pos early]; exact fEq) gEq dEq nEq
  rw [thursday, ← aEq]
  refine ⟨by omega, steps.trans ?_⟩
  have cases := leapDays_cases a
  have leap := steps_leapDays (by omega) bEq cEq
  rw [← sEq] at leap
  by_cases before : n < 0
  · rw [if_pos before, if_pos before, ← aEq, div_of_nonneg (by omega)]
    congr 1
    omega
  · rw [if_neg before, if_neg before, if_neg (by omega), div_of_nonneg (not_lt.mp before)]

theorem week_late (first : 1 ≤ date.year) (late : 3 ≤ date.month) : 0 ≤ thursdayInYear date ∧
      week date = if thursdayInYear date > 364 + leapDays date.year then (date.year + 1, 1)
        else (date.year, thursdayInYear date / 7 + 1) := by
  have dayRange := valid.day
  obtain ⟨a, aEq⟩ : ∃ a, a = date.year := ⟨_, rfl⟩
  obtain ⟨b, bEq⟩ : ∃ b, b = div a 4 - div a 100 + div a 400 := ⟨_, rfl⟩
  obtain ⟨c, cEq⟩ : ∃ c, c = div (a - 1) 4 - div (a - 1) 100 + div (a - 1) 400 := ⟨_, rfl⟩
  obtain ⟨s, sEq⟩ : ∃ s, s = b - c := ⟨_, rfl⟩
  obtain ⟨e, eEq⟩ : ∃ e, e = s + 1 := ⟨_, rfl⟩
  obtain ⟨f, fEq⟩ : ∃ f, f = date.day + (div (153 * (date.month - 3) + 2) 5 + 58 + s) := ⟨_, rfl⟩
  obtain ⟨g, gEq⟩ : ∃ g, g = (a + b) % 7 := ⟨_, rfl⟩
  obtain ⟨d, dEq⟩ : ∃ d, d = (f + g - e) % 7 := ⟨_, rfl⟩
  obtain ⟨n, nEq⟩ : ∃ n, n = f + 3 - d := ⟨_, rfl⟩
  have inYear := number_sub_newYear_late late
  have cases := leapDays_cases a
  have leap := steps_leapDays (by omega) bEq cEq
  rw [← sEq] at leap
  have leapEq : leapDays date.year = s := by
    rw [← aEq]
    omega
  rw [leapEq] at inYear ⊢
  have thursday : thursdayInYear date = n := by
    rw [nEq, dEq]
    refine thursdayInYear_eq (fEq.trans inYear.symm) ?_
    have step := yearStart_eq_pred date.year
    rw [← aEq] at step leapEq ⊢
    rw [yearStart_of_nonneg (by omega), ← bEq] at step
    omega
  have steps := @week_of_steps date a b c s e f g d n (by rw [if_neg (by omega)]; omega) bEq cEq
    sEq (by rw [if_neg (by omega)]; exact eEq) (by rw [if_neg (by omega)]; exact fEq) gEq dEq nEq
  have monthLow : 0 ≤ div (153 * (date.month - 3) + 2) 5 := by
    rw [div_of_nonneg (by omega)]
    omega
  rw [thursday]
  refine ⟨by omega, steps.trans ?_⟩
  rw [if_neg (by omega), div_of_nonneg (by omega)]

theorem week_eq (first : 1 ≤ date.year) : week date = if thursdayInYear date < 0
        then (date.year - 1, 1 + (thursdayInYear date + 365 + leapDays (date.year - 1)) / 7)
      else if thursdayInYear date > 364 + leapDays date.year then (date.year + 1, 1)
      else (date.year, thursdayInYear date / 7 + 1) := by
  have cases := leapDays_cases date.year
  by_cases early : date.month ≤ 2
  · have formula := week_early valid first early
    rw [formula.2]
    by_cases before : thursdayInYear date < 0
    · rw [if_pos before, if_pos before]
    · rw [if_neg before, if_neg before, if_neg (by omega)]
  · have formula := week_late valid first (by omega)
    rw [if_neg (by omega), formula.2]

end

theorem newYear_succ (year : Int) : Gregorian.Date.number ⟨year + 1, 1, 1⟩ =
    Gregorian.Date.number ⟨year, 1, 1⟩ + 365 + leapDays year := by
  have length := yearStart_eq_pred year
  rw [newYear_number, newYear_number, Int.add_sub_cancel]
  omega

theorem week_spec (valid : date.Valid) (first : 1 ≤ date.year) :
    ∃ year, Gregorian.Date.number ⟨year, 1, 1⟩ ≤ thursdayOf date.number ∧
      thursdayOf date.number < Gregorian.Date.number ⟨year + 1, 1, 1⟩ ∧ week date =
        (year, 1 + (thursdayOf date.number - Gregorian.Date.number ⟨year, 1, 1⟩) / 7) := by
  have range := thursdayInYear_range valid
  have thursday : thursdayInYear date =
      thursdayOf date.number - Gregorian.Date.number ⟨date.year, 1, 1⟩ := rfl
  have next := newYear_succ date.year
  rw [week_eq valid first]
  by_cases before : thursdayInYear date < 0
  · have previous := newYear_succ (date.year - 1)
    have cases' := leapDays_cases (date.year - 1)
    rw [sub_add_cancel] at previous
    refine ⟨date.year - 1, by omega, by rw [sub_add_cancel]; omega, ?_⟩
    rw [if_pos before]
    congr 3
    omega
  rw [if_neg before]
  by_cases after : thursdayInYear date > 364 + leapDays date.year
  · have next' := newYear_succ (date.year + 1)
    have cases' := leapDays_cases (date.year + 1)
    refine ⟨date.year + 1, by omega, by omega, ?_⟩
    rw [if_pos after]
    congr 1
    omega
  · refine ⟨date.year, by omega, by omega, ?_⟩
    rw [if_neg after, ← thursday, add_comm]

theorem dayOfWeek_thursdayOf : dayOfWeek (thursdayOf number) = 4 := by
  rw [thursdayOf, dayOfWeek, dayOfWeek]
  omega

/-- The method `week` gives the year of the Thursday and counts the Thursdays of that year. -/
theorem week_isoWeek (valid : date.Valid) (first : 1 ≤ date.year) : IsoWeek date (week date) := by
  obtain ⟨year, low, high, eq⟩ := week_spec valid first
  rw [eq]
  constructor
  · exact year_ofNumber low high
  · rw [ncard_earlierThursdays (dayOfWeek_thursdayOf _) low]

theorem daycountFromYmd_of_pos (valid : date.Valid) (first : 1 ≤ date.year) :
    daycountFromYmd date = date.number := by
  have exact : Exact date.marchYear := by
    rw [Gregorian.Date.marchYear]
    split
    · exact .inl (by omega)
    · exact .inl (by omega)
  rw [daycountFromYmd_eq valid, if_pos exact, add_zero]

theorem thursdayOf_succ : thursdayOf (number + 1) =
    if dayOfWeek number = 7 then thursdayOf number + 7 else thursdayOf number := by
  rw [thursdayOf, thursdayOf, dayOfWeek, dayOfWeek]
  split <;> omega

theorem week_next_iff (valid : date.Valid) (first : 1 ≤ date.year) :
    week date.next = week date ↔ dayOfWeek date.number ≠ 7 := by
  have later : 1 ≤ date.next.year := by
    rw [Gregorian.Date.next]
    split
    · exact first
    split
    · exact first
    · dsimp only
      omega
  obtain ⟨year, low, high, eq⟩ := week_spec valid first
  obtain ⟨year', low', high', eq'⟩ := week_spec valid.next later
  rw [valid.number_next, thursdayOf_succ] at low' high' eq'
  constructor
  · intro same sunday
    rw [if_pos sunday] at eq'
    rw [eq, eq', Prod.mk.injEq] at same
    obtain ⟨rfl, sameNumber⟩ := same
    omega
  intro notSunday
  rw [if_neg notSunday] at low' high' eq'
  have sameYear : year' = year := (year_ofNumber low' high').symm.trans (year_ofNumber low high)
  rw [eq', eq, sameYear]

/-- Week numbers are those of the standard from the year 1 on, and a new week begins on Monday. -/
theorem week_is_isoWeek (date : Gregorian.Date) (valid : date.Valid) (first : 1 ≤ date.year) :
    IsoWeek date (week date) ∧
      (week date.next = week date ↔ dayOfWeek (daycountFromYmd date) ≠ 7) := by
  rw [daycountFromYmd_of_pos valid first]
  exact ⟨week_isoWeek valid first, week_next_iff valid first⟩

/-- The last Thursday of 2004 makes the first Saturday of 2005 a day of the 53rd week. -/
theorem week_is_isoWeek_newYear :
    IsoWeek ⟨2005, 1, 1⟩ (2004, 53) ∧ week (Gregorian.Date.next ⟨2005, 1, 1⟩) = (2004, 53) := by
  have valid : Gregorian.Date.Valid ⟨2005, 1, 1⟩ := newYear_valid 2005
  have spec := week_is_isoWeek ⟨2005, 1, 1⟩ valid (by decide)
  have eq : week ⟨2005, 1, 1⟩ = (2004, 53) := rfl
  rw [eq] at spec
  exact ⟨spec.1, spec.2.mpr (by decide)⟩

end RakudoStar.Temporal
