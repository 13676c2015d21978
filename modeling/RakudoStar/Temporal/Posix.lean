import Mathlib.Data.Rat.Floor
import RakudoStar.Temporal.Daycount

/-!
# POSIX times

Three formulas meet in a time made from an integer: those of `DateTime.new`, of `posix` and of
the day count.
-/

namespace RakudoStar.Temporal

open Foundation Int
open Foundation.Gregorian (IsLeap yearStart monthStart ofMarch ofNumber centuryStart yearInCentury)

theorem rationalFloor_eq (q : Rat) : rationalFloor q = ⌊q⌋ := by
  rw [Rat.floor_def', rationalFloor]
  split
  · next whole => rw [whole, Nat.cast_one, ediv_one]
  next fraction =>
    split
    · next neg =>
        have notMultiple : ¬ (q.den : Int) ∣ q.num := by
          intro multiple
          rw [← natAbs_dvd_natAbs, natAbs_natCast] at multiple
          exact fraction (Nat.Coprime.eq_one_of_dvd q.reduced.symm multiple)
        have positive : (q.den : Int).sign = 1 := sign_eq_one_of_pos (natCast_pos.mpr q.den_pos)
        rw [div, tdiv_eq_ediv, if_neg (fun both => both.elim (by omega) notMultiple), positive,
          Int.add_sub_cancel]
    · next nonneg => exact div_of_nonneg (Int.not_lt.mp nonneg)

theorem rationalFloor_div (i : Int) (n : Nat) : rationalFloor ((i : Rat) / (n : Rat)) = i / n := by
  rw [rationalFloor_eq, Rat.floor_intCast_div_natCast]

@[simp] theorem floorSixtieth_eq (i : Int) : floorSixtieth i = i / 60 :=
  rationalFloor_div i 60

theorem floorDay_eq (i : Int) : rationalFloor ((i : Rat) / 24) = i / 24 :=
  rationalFloor_div i 24

/-- The days that `posix` counts are those of the calendar from the year -4800 on. -/
theorem clock_eq {dt : DateTime} (valid : dt.ymd.Valid) : dt.clock = 86400 * (dt.ymd.number +
      (if Exact (dt.ymd.marchYear + 4800) then 0 else 1) - 40587) +
        3600 * dt.hour + 60 * dt.minute + dt.wholeSecond := by
  have monthRange := valid.month
  have years := yearDivisions (dt.ymd.marchYear + 4800)
  have start : yearStart (dt.ymd.marchYear + 4800) = yearStart dt.ymd.marchYear + 1753164 := by
    rw [yearStart, yearStart]
    omega
  rw [start] at years
  rw [DateTime.clock, Gregorian.Date.number]
  rcases dt.ymd.march_cases with ⟨early, year, month⟩ | ⟨late, year, month⟩
  · have january : div (14 - dt.ymd.month) 12 = 1 := by
      rw [div_of_nonneg (by omega)]
      omega
    have months : div (153 * (dt.ymd.month + 12 * 1 - 3) + 2) 5 =
        monthStart dt.ymd.marchMonth - 91 := by
      rw [div_of_nonneg (by omega), month, monthStart]
      omega
    have march : dt.ymd.year + 4800 - 1 = dt.ymd.marchYear + 4800 := by omega
    simp only [january, months, march]
    omega
  have spring : div (14 - dt.ymd.month) 12 = 0 := by
    rw [div_of_nonneg (by omega)]
    omega
  have months : div (153 * (dt.ymd.month + 12 * 0 - 3) + 2) 5 =
      monthStart dt.ymd.marchMonth - 91 := by
    rw [div_of_nonneg (by omega), month, monthStart]
    omega
  have march : dt.ymd.year + 4800 - 0 = dt.ymd.marchYear + 4800 := by omega
  simp only [spring, months, march]
  omega

/-- The date in `DateTime.new`, from the days since March of the year -4800. -/
def julianDate (a : Int) : Gregorian.Date :=
  let b := div (4 * a + 3) 146097
  let c := a - div (146097 * b) 4
  let d := div (4 * c + 3) 1461
  let e := c - div (d * 1461) 4
  let m := div (5 * e + 2) 153
  ⟨b * 100 + d - 4800 + div m 10, m + 3 - 12 * div m 10, e - div (153 * m + 2) 5 + 1⟩

theorem newFromPosix_eq (doubles : Doubles) (time : Int) : DateTime.newFromPosix doubles time =
      ⟨julianDate (div (div (div time 60) 60) 24 + 2440588 + 32044), div (div time 60) 60 % 24,
        div time 60 % 60, .int (time % 60), 0⟩ := by
  rw [DateTime.newFromPosix, DateTime.inTimezone, if_pos rfl]
  rfl

theorem julianDate_of_nonneg {a : Int} (nonneg : 0 ≤ a) :
    julianDate a = ofNumber (a - 2432045) := by
  obtain ⟨day, dayEq⟩ : ∃ day, day = a - 1753164 := ⟨_, rfl⟩
  obtain ⟨century, day', year, dayOfYear, month, centuryEq, dayEq', yearEq, dayOfYearEq, monthEq⟩ :=
    Gregorian.exists_steps HDiv.hDiv day
  have steps := Gregorian.steps_spec centuryEq dayEq' yearEq dayOfYearEq
  have bEq : div (4 * a + 3) 146097 = century + 48 := by
    rw [div_of_nonneg (by omega)]
    omega
  have cEq : a - div (146097 * (century + 48)) 4 = day' := by
    rw [div_of_nonneg (by omega), dayEq', centuryStart]
    omega
  have dEq : div (4 * day' + 3) 1461 = year := by
    rw [div_of_nonneg (by omega)]
    omega
  have eEq : day' - div (year * 1461) 4 = dayOfYear := by
    rw [div_of_nonneg (by omega), dayOfYearEq, yearInCentury]
    omega
  have mEq : div (5 * dayOfYear + 2) 153 = month := by
    rw [div_of_nonneg (by omega), monthEq]
  have dayOfMonth : div (153 * month + 2) 5 = (2 + month * 153) / 5 := by
    rw [div_of_nonneg (by omega)]
    omega
  rw [Gregorian.ofNumber_eq_ofMarch (by omega : day = a - 2432045 + 678881) centuryEq dayEq' yearEq
    dayOfYearEq monthEq]
  simp only [julianDate, bEq, cEq, dEq, eEq, mEq, dayOfMonth, ofMarch,
    div_of_nonneg (by omega : 0 ≤ month)]
  split
  · simp only [Gregorian.Date.mk.injEq]
    omega
  · simp only [Gregorian.Date.mk.injEq]
    omega

/-- For earlier days the truncated divisions leave a day before the first of a month. -/
theorem julianDate_of_neg {a : Int} (neg : a < 0) : (julianDate a).day ≤ 0 := by
  obtain ⟨b, bEq⟩ : ∃ b, b = div (4 * a + 3) 146097 := ⟨_, rfl⟩
  obtain ⟨c, cEq⟩ : ∃ c, c = a - div (146097 * b) 4 := ⟨_, rfl⟩
  obtain ⟨d, dEq⟩ : ∃ d, d = div (4 * c + 3) 1461 := ⟨_, rfl⟩
  obtain ⟨e, eEq⟩ : ∃ e, e = c - div (d * 1461) 4 := ⟨_, rfl⟩
  obtain ⟨m, mEq⟩ : ∃ m, m = div (5 * e + 2) 153 := ⟨_, rfl⟩
  simp only [julianDate, ← bEq, ← cEq, ← dEq, ← eEq, ← mEq]
  rw [div_of_neg (by omega)] at bEq
  have cNeg : c < 0 := by
    rcases div_cases (146097 * b) 4 with ⟨_, eq⟩ | ⟨_, eq⟩ <;> omega
  rw [div_of_neg (by omega)] at dEq
  have eNeg : e < 0 := by
    rcases div_cases (d * 1461) 4 with ⟨_, eq⟩ | ⟨_, eq⟩ <;> omega
  rw [div_of_neg (by omega)] at mEq
  rcases div_cases (153 * m + 2) 5 with ⟨_, eq⟩ | ⟨_, eq⟩ <;> omega

/-- What a time should be that was made from an integer. -/
structure Shows (doubles : Doubles) (time : Int) (dt : DateTime) : Prop where
  date : checkDate dt.ymd = .ok ()
  hour : 0 ≤ dt.hour ∧ dt.hour < 24
  minute : 0 ≤ dt.minute ∧ dt.minute < 60
  second : 0 ≤ dt.second.value ∧ dt.second.value < 60
  posix : dt.posix doubles = time
  daycount : daycountFromYmd dt.ymd = time / 86400 + 40587

/-- The three truncated divisions of a time. -/
theorem divisions_cases (time : Int) :
    (0 ≤ time ∨ time % 86400 = 0) ∧ div (div (div time 60) 60) 24 = time / 86400 ∧
        86400 * div (div (div time 60) 60) 24 + 3600 * (div (div time 60) 60 % 24) +
          60 * (div time 60 % 60) + time % 60 = time ∨ time < 0 ∧ time % 86400 ≠ 0 ∧
        86400 * div (div (div time 60) 60) 24 + 3600 * (div (div time 60) 60 % 24) +
          60 * (div time 60 % 60) + time % 60 ≠ time := by
  obtain ⟨minutes, minutesEq⟩ : ∃ minutes, minutes = div time 60 := ⟨_, rfl⟩
  obtain ⟨hours, hoursEq⟩ : ∃ hours, hours = div minutes 60 := ⟨_, rfl⟩
  obtain ⟨days, daysEq⟩ : ∃ days, days = div hours 24 := ⟨_, rfl⟩
  rw [← minutesEq, ← hoursEq, ← daysEq]
  rcases div_cases time 60 with ⟨_, eq⟩ | ⟨_, eq⟩ <;>
    rcases div_cases minutes 60 with ⟨_, eq'⟩ | ⟨_, eq'⟩ <;>
      rcases div_cases hours 24 with ⟨_, eq''⟩ | ⟨_, eq''⟩ <;> omega

theorem julianDate_number {day : Int} (low : -2432045 ≤ day + 40587) :
    julianDate (day + 2440588 + 32044) = ofNumber (day + 40587) := by
  rw [julianDate_of_nonneg (by omega)]
  congr 1
  omega

/-- Times from 1970 on go well, and earlier ones only at midnight and where the formulas for the
date do not see a truncated division. -/
theorem newFromPosix_shows_iff (doubles : Doubles) (time : Int) :
    Shows doubles time (DateTime.newFromPosix doubles time) ↔
      0 ≤ time ∨ time % 86400 = 0 ∧ -4800 ≤ (ofNumber (time / 86400 + 40587)).marchYear ∧
        Exact (ofNumber (time / 86400 + 40587)).marchYear := by
  obtain ⟨day, dayEq⟩ : ∃ day, day = div (div (div time 60) 60) 24 := ⟨_, rfl⟩
  have divisions := divisions_cases time
  rw [newFromPosix_eq]
  rw [← dayEq] at divisions ⊢
  have spec := Gregorian.ofNumber_spec (day + 40587)
  have year := spec.1.le_marchYear_iff (-4800)
  rw [spec.2, show yearStart (-4800) = -1753164 by decide] at year
  constructor
  · intro shows
    have low : -2432045 ≤ day + 40587 := by
      by_contra early
      have first := ((checkDate_eq_ok_iff _).mp shows.date).day.1
      have before := @julianDate_of_neg (day + 2440588 + 32044) (by omega)
      dsimp only at first
      omega
    have late := year.mpr low
    have clock := shows.posix
    have count := shows.daycount
    rw [DateTime.posix, if_pos rfl] at clock
    simp only [julianDate_number low] at clock count
    rw [clock_eq spec.1] at clock
    dsimp only at clock
    rw [spec.2, if_pos (.inl (by omega)), DateTime.wholeSecond] at clock
    dsimp only at clock
    rcases divisions with ⟨nonneg | midnight, same, _⟩ | ⟨_, _, differs⟩
    · exact .inl nonneg
    · rw [same] at late count
      have spec' := Gregorian.ofNumber_spec (time / 86400 + 40587)
      rw [daycountFromYmd_eq spec'.1, spec'.2] at count
      refine .inr ⟨midnight, late, ?_⟩
      by_contra common
      rw [if_neg common] at count
      omega
    · exact absurd (by omega) differs
  · intro good
    have same : day = time / 86400 ∧ 86400 * day + 3600 * (div (div time 60) 60 % 24) +
          60 * (div time 60 % 60) + time % 60 = time := by
      rcases divisions with ⟨_, same, sum⟩ | ⟨neg, notMidnight, _⟩
      · exact ⟨same, sum⟩
      · exact absurd good (by omega)
    have exact : Exact (ofNumber (day + 40587)).marchYear ∧ -2432045 ≤ day + 40587 := by
      rcases good with nonneg | ⟨_, late, exact⟩
      · have positive := (spec.1.le_marchYear_iff 0).mpr
        rw [spec.2, show yearStart 0 = 0 by decide] at positive
        exact ⟨.inl (positive (by omega)), by omega⟩
      · rw [← same.1] at late exact
        exact ⟨exact, year.mp late⟩
    simp only [julianDate_number exact.2]
    constructor
    case date => exact (checkDate_eq_ok_iff _).mpr spec.1
    case hour => exact ⟨emod_nonneg _ (by decide), emod_lt_of_pos _ (by decide)⟩
    case minute => exact ⟨emod_nonneg _ (by decide), emod_lt_of_pos _ (by decide)⟩
    case second =>
      have low := emod_nonneg time (by decide : (60 : Int) ≠ 0)
      have high := emod_lt_of_pos time (by decide : (0 : Int) < 60)
      dsimp only [Second.value]
      exact ⟨by exact_mod_cast low, by exact_mod_cast high⟩
    case posix =>
      rw [DateTime.posix, if_pos rfl, clock_eq spec.1]
      dsimp only
      rw [spec.2, if_pos (.inl (by omega)), DateTime.wholeSecond]
      dsimp only
      omega
    case daycount =>
      rw [daycountFromYmd_eq spec.1, spec.2, if_pos exact.1, same.1, add_zero]

/-- One second before 1970 comes out as 59 seconds after its start. -/
theorem newFromPosix_minusOne :
    DateTime.newFromPosix ⟨fun _ => 0, fun _ _ => 0⟩ (-1) = ⟨⟨1970, 1, 1⟩, 0, 0, .int 59, 0⟩ ∧
      ¬ Shows ⟨fun _ => 0, fun _ _ => 0⟩ (-1)
        (DateTime.newFromPosix ⟨fun _ => 0, fun _ _ => 0⟩ (-1)) := by
  refine ⟨by decide, fun shows => absurd shows.posix ?_⟩
  decide

end RakudoStar.Temporal
