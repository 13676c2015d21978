import RakudoStar.Foundation.Except
import RakudoStar.Temporal.Posix

/-!
# Calendar arithmetic with dates

A `Date` carries its day count. For the dates that come back from their counts, the operators
on the counts are calendar arithmetic.
-/

namespace RakudoStar.Temporal

open Foundation
open Foundation.Gregorian (ofNumber)

/-- The dates that come back from their counts, with the bound that an `int` gives. -/
def RoundTrips (ymd : Gregorian.Date) : Prop :=
  Faithful ymd ∧ ymd.number < 9223372036854060402

variable {ymd : Gregorian.Date} {days : Int}

theorem RoundTrips.number (trips : RoundTrips ymd) (valid : ymd.Valid) :
    -715406 ≤ ymd.number ∧ ymd.number < 9223372036854060402 := by
  refine ⟨(marchYear_iff valid).mp ?_, trips.2⟩
  exact trips.1.elim (fun nonneg => by omega) And.left

theorem RoundTrips.daycount (trips : RoundTrips ymd) (valid : ymd.Valid) :
    daycountFromYmd ymd = ymd.number := by
  rw [daycountFromYmd_eq valid, if_pos trips.1.exact, add_zero]

theorem Date.new_eq (valid : ymd.Valid) : Date.new ymd = .ok ⟨ymd, daycountFromYmd ymd⟩ := by
  rw [Date.new, (checkDate_eq_ok_iff ymd).mpr valid]
  rfl

theorem new_newFromDaycount {number : Int} (trips : RoundTrips (ofNumber number)) :
    Date.new (ofNumber number) = .ok (Date.newFromDaycount number) := by
  have spec := Gregorian.ofNumber_spec number
  have range := trips.number spec.1
  have count := trips.daycount spec.1
  rw [spec.2] at range count
  rw [Date.new_eq spec.1, Date.newFromDaycount, ymdFromDaycount_of_range range.1 range.2, count]

/-- What holds of an object for a date that comes back from its count. -/
structure IsCalendarDate (ymd : Gregorian.Date) (date : Date) : Prop where
  plus : ∀ x, RoundTrips (ofNumber (ymd.number + x)) →
    Date.new (ofNumber (ymd.number + x)) = .ok (date.plus x)
  minus : ∀ x, RoundTrips (ofNumber (ymd.number - x)) →
    Date.new (ofNumber (ymd.number - x)) = .ok (date.minus x)
  succ : RoundTrips ymd.next → Date.new ymd.next = .ok date.succ
  pred : ∀ before : Gregorian.Date, before.Valid → before.next = ymd → RoundTrips before →
    Date.new before = .ok date.pred
  difference : ∀ ymd' date', ymd'.Valid → RoundTrips ymd' → Date.new ymd' = .ok date' →
    date.difference date' = ymd.number - ymd'.number
  cmp : ∀ ymd' date', ymd'.Valid → RoundTrips ymd' → Date.new ymd' = .ok date' →
    (date.cmp date' = .lt ↔ ymd.Before ymd') ∧ (date.cmp date' = .eq ↔ ymd = ymd') ∧
      (date.cmp date' = .gt ↔ ymd'.Before ymd)

theorem isCalendarDate_new (valid : ymd.Valid) (trips : RoundTrips ymd) :
    IsCalendarDate ymd ⟨ymd, daycountFromYmd ymd⟩ := by
  have count := trips.daycount valid
  have other : ∀ ymd' date', ymd'.Valid → RoundTrips ymd' → Date.new ymd' = .ok date' →
      date'.daycount = ymd'.number := by
    intro ymd' date' valid' trips' made
    rw [Date.new_eq valid'] at made
    cases made
    exact trips'.daycount valid'
  constructor
  case plus =>
    intro x trips'
    rw [new_newFromDaycount trips', Date.plus, count]
  case minus =>
    intro x trips'
    rw [new_newFromDaycount trips', Date.minus, count]
  case succ =>
    intro trips'
    have next : ofNumber (ymd.number + 1) = ymd.next := by
      rw [← valid.number_next, Gregorian.ofNumber_number valid.next]
    rw [← next] at trips' ⊢
    rw [new_newFromDaycount trips', Date.succ, count]
  case pred =>
    intro before validBefore next trips'
    have number : before.number = ymd.number - 1 := by
      rw [← next, validBefore.number_next, Int.add_sub_cancel]
    rw [← Gregorian.ofNumber_number validBefore, number] at trips' ⊢
    rw [new_newFromDaycount trips', Date.pred, count]
  case difference =>
    intro ymd' date' valid' trips' made
    rw [Date.difference, count, other ymd' date' valid' trips' made]
  case cmp =>
    intro ymd' date' valid' trips' made
    rw [Date.cmp, count, other ymd' date' valid' trips' made, Int.compare_eq_lt,
      Int.compare_eq_eq, Int.compare_eq_gt]
    refine ⟨Gregorian.number_lt_iff valid valid', ⟨Gregorian.eq_of_number_eq valid valid', ?_⟩,
      Gregorian.number_lt_iff valid' valid⟩
    rintro rfl
    rfl

/-- Dates come back from their counts, the next date has the next count, and counts come back
from their dates, each exactly where the truncated divisions and the `int`s allow it. There the
operators on dates are calendar arithmetic. -/
theorem daycount_is_calendar (ymd : Gregorian.Date) (admitted : checkDate ymd = .ok ())
    (daycount : Int) : (ymdFromDaycount (daycountFromYmd ymd) = ymd ↔ RoundTrips ymd) ∧
      (daycountFromYmd ymd.next = daycountFromYmd ymd + 1 ↔
        (Exact ymd.marchYear ↔ Exact ymd.next.marchYear)) ∧
      (checkDate (ymdFromDaycount daycount) = .ok () ∧
        daycountFromYmd (ymdFromDaycount daycount) = daycount ↔ RoundTrips (ofNumber daycount)) ∧
      (RoundTrips ymd → ∃ date, Date.new ymd = .ok date ∧ IsCalendarDate ymd date) := by
  have valid := (checkDate_eq_ok_iff ymd).mp admitted
  refine ⟨date_roundTrips_iff valid, daycount_next_iff valid, ?_, fun trips => ?_⟩
  · rw [checkDate_eq_ok_iff, daycount_roundTrips_iff, RoundTrips, (Gregorian.ofNumber_spec _).2]
  · exact ⟨_, Date.new_eq valid, isCalendarDate_new valid trips⟩

theorem daycount_is_calendar_epoch :
    (ymdFromDaycount (daycountFromYmd ⟨1970, 1, 1⟩) = ⟨1970, 1, 1⟩ ↔ RoundTrips ⟨1970, 1, 1⟩) ∧
      (daycountFromYmd (Gregorian.Date.next ⟨1970, 1, 1⟩) = daycountFromYmd ⟨1970, 1, 1⟩ + 1 ↔
        (Exact (Gregorian.Date.marchYear ⟨1970, 1, 1⟩) ↔
          Exact (Gregorian.Date.next ⟨1970, 1, 1⟩).marchYear)) ∧
      (checkDate (ymdFromDaycount 0) = .ok () ∧ daycountFromYmd (ymdFromDaycount 0) = 0 ↔
        RoundTrips (ofNumber 0)) ∧ (RoundTrips ⟨1970, 1, 1⟩ →
        ∃ date, Date.new ⟨1970, 1, 1⟩ = .ok date ∧ IsCalendarDate ⟨1970, 1, 1⟩ date) :=
  daycount_is_calendar ⟨1970, 1, 1⟩
    ((checkDate_eq_ok_iff ⟨1970, 1, 1⟩).mpr ⟨by decide, by decide⟩) 0

/-- The leap day of the year 0 has the count of the day that follows it. -/
theorem leap_day_of_year_zero :
    checkDate ⟨0, 2, 29⟩ = .ok () ∧ Gregorian.Date.next ⟨0, 2, 29⟩ = ⟨0, 3, 1⟩ ∧
      ¬ (ymdFromDaycount (daycountFromYmd ⟨0, 2, 29⟩) = ⟨0, 2, 29⟩ ∧
        daycountFromYmd ⟨0, 3, 1⟩ = daycountFromYmd ⟨0, 2, 29⟩ + 1) :=
  ⟨(checkDate_eq_ok_iff ⟨0, 2, 29⟩).mpr ⟨by decide, by decide⟩, by decide, by decide⟩

/-- The date some days later, as a change of the time zone computes it. -/
def moved (ymd : Gregorian.Date) (days : Int) : Gregorian.Date :=
  if days ≠ 0 then ymdFromDaycount (daycountFromYmd ymd + days) else ymd

/-- The number that a count has for `ymd-from-daycount`. -/
def keptNumber (daycount : Int) : Int := dayKept daycount - 678881

theorem keptNumber_range (daycount : Int) :
    -9223372036855491214 ≤ keptNumber daycount ∧ keptNumber daycount < 9223372036854060402 := by
  have range := native_range (daycount + 715406)
  rw [keptNumber, dayKept]
  omega

theorem keptNumber_congr {daycount other q : Int}
    (same : daycount = other + 18446744073709551616 * q) :
    keptNumber daycount = keptNumber other := by
  have shifted : daycount + 715406 = other + 715406 + 18446744073709551616 * q := by omega
  rw [keptNumber, keptNumber, dayKept, dayKept, shifted, native_add_mul]

theorem ymdFromDaycount_congr {daycount other q : Int}
    (same : daycount = other + 18446744073709551616 * q) :
    ymdFromDaycount daycount = ymdFromDaycount other := by
  have kept := keptNumber_congr same
  rw [keptNumber, keptNumber, sub_left_inj] at kept
  rw [ymdFromDaycount_eq, ymdFromDaycount_eq, kept]

/-- A date that moves over midnight and comes back. -/
def MovesBack (ymd : Gregorian.Date) (days : Int) : Prop :=
  days = 0 ∨ RoundTrips ymd ∧ Faithful (ofNumber (keptNumber (ymd.number + days)))

/-- Where a count leads to a date that comes back, the date has the number that was kept. -/
theorem ymdFromDaycount_of_faithful {daycount : Int}
    (faithful : Faithful (ofNumber (keptNumber daycount))) :
    ymdFromDaycount daycount = ofNumber (keptNumber daycount) ∧
      RoundTrips (ofNumber (keptNumber daycount)) := by
  have spec := Gregorian.ofNumber_spec (keptNumber daycount)
  have trips : RoundTrips (ofNumber (keptNumber daycount)) :=
    ⟨faithful, by rw [spec.2]; exact (keptNumber_range daycount).2⟩
  have low := (trips.number spec.1).1
  rw [spec.2, keptNumber] at low
  refine ⟨?_, trips⟩
  rw [ymdFromDaycount_eq, truncatedDate_of_late (by omega), keptNumber]

theorem moved_moved (valid : ymd.Valid) (movesBack : MovesBack ymd days) (total : Int) :
    moved (moved ymd days) (total - days) = moved ymd total := by
  rcases movesBack with rfl | ⟨trips, faithful⟩
  · rw [sub_zero]
    rfl
  by_cases stays : days = 0
  · rw [stays, sub_zero]
    rfl
  have spec := Gregorian.ofNumber_spec (keptNumber (ymd.number + days))
  rcases ymdFromDaycount_of_faithful faithful with ⟨eq, trips'⟩
  rcases exists_dayKept_eq (ymd.number + days) with ⟨q, shifted⟩
  have there : moved ymd days = ofNumber (keptNumber (ymd.number + days)) := by
    rw [moved, if_pos stays, trips.daycount valid, eq]
  have back : ∀ k, ymdFromDaycount (keptNumber (ymd.number + days) + (k - days)) =
      ymdFromDaycount (ymd.number + k) := by
    intro k
    refine @ymdFromDaycount_congr _ _ q ?_
    rw [keptNumber, shifted]
    omega
  rw [there, moved, moved, trips'.daycount spec.1, spec.2, back, trips.daycount valid]
  by_cases same : total - days = 0
  · have totalEq : total = days := by omega
    rw [if_neg (not_not.mpr same), totalEq, if_pos stays, eq]
  rw [if_pos same]
  by_cases none : total = 0
  · rw [none, if_neg (by simp), add_zero]
    have same := (date_roundTrips_iff valid).mpr trips
    rwa [trips.daycount valid] at same
  · rw [if_pos none]

theorem movesBack_of_moved (valid : ymd.Valid) (valid' : (moved ymd days).Valid)
    (back : moved (moved ymd days) (-days) = ymd) : MovesBack ymd days := by
  by_cases stays : days = 0
  · exact .inl stays
  obtain ⟨there, thereEq⟩ : ∃ there, there = ymdFromDaycount (daycountFromYmd ymd + days) :=
    ⟨_, rfl⟩
  have movedEq : moved ymd days = there := by
    rw [moved, if_pos stays, thereEq]
  have moves : -days ≠ 0 := by omega
  rw [movedEq, moved, if_pos moves] at back
  rw [movedEq, thereEq] at valid'
  have validBack : (ymdFromDaycount (daycountFromYmd there + -days)).Valid := by
    rw [back]
    exact valid
  have count := daycountFromYmd_eq valid
  have countThere := daycountFromYmd_eq (thereEq ▸ valid')
  rcases exists_dayKept_eq (daycountFromYmd ymd + days) with ⟨q, shifted⟩
  rcases exists_dayKept_eq (daycountFromYmd there + -days) with ⟨q', shifted'⟩
  rcases ymdFromDaycount_cases valid' with ⟨late, eq⟩ | ⟨early, common, low, high⟩
  · rw [← thereEq] at eq
    have number := congrArg Gregorian.Date.number eq
    rw [(Gregorian.ofNumber_spec _).2] at number
    rcases ymdFromDaycount_cases validBack with ⟨late', eq'⟩ | ⟨early', common', low', high'⟩
    · rw [back] at eq'
      have number' := congrArg Gregorian.Date.number eq'
      rw [(Gregorian.ofNumber_spec _).2] at number'
      have exact : Exact ymd.marchYear ∧ Exact there.marchYear := by
        by_contra notBoth
        split at count <;> split at countThere
        · exact notBoth ⟨‹_›, ‹_›⟩
        all_goals omega
      rw [if_pos exact.1, add_zero] at count
      have range := native_range (daycountFromYmd there + -days + 715406)
      have kept : keptNumber (ymd.number + days) = there.number := by
        rw [← count, number, keptNumber]
      have year := (marchYear_iff valid).mpr (by omega)
      have validThere : there.Valid := thereEq ▸ valid'
      have yearThere := (marchYear_iff validThere).mpr (by omega)
      rw [dayKept] at number' late'
      refine .inr ⟨⟨exact.1.imp_right fun leap => ⟨year, leap⟩, by omega⟩, ?_⟩
      rw [kept, Gregorian.ofNumber_number validThere]
      exact exact.2.imp_right fun leap => ⟨yearThere, leap⟩
    · rw [back] at common' low' high'
      rw [if_neg common'] at count
      split at countThere <;> omega
  · rw [← thereEq] at common low high
    rw [if_neg common] at countThere
    rcases ymdFromDaycount_cases validBack with ⟨late', eq'⟩ | ⟨early', common', low', high'⟩
    · rw [back] at eq'
      have number' := congrArg Gregorian.Date.number eq'
      rw [(Gregorian.ofNumber_spec _).2] at number'
      split at count <;> omega
    rw [back] at common' low' high'
    rw [if_neg common'] at count
    omega

theorem DateTime.wholeSecond_eq (dt : DateTime) : dt.wholeSecond = ⌊dt.second.value⌋ := by
  rw [wholeSecond]
  split
  · next i same => rw [same, Second.value, Int.floor_intCast]
  · next q same => rw [same, Second.value, rationalFloor_eq]

theorem checkValue_ok_iff (val : Rat) (name : String) (range : Range) :
    checkValue val name range = .ok () ↔ range.Admits val := by
  rw [checkValue]
  split
  · next inside => exact iff_of_true rfl inside
  · next outside => exact iff_of_false (fun same => by cases same) outside

structure InRange (dt : DateTime) : Prop where
  ymd : dt.ymd.Valid
  hour : 0 ≤ dt.hour ∧ dt.hour < 24
  minute : 0 ≤ dt.minute ∧ dt.minute < 60
  second : 0 ≤ dt.second.value ∧ dt.second.value < 62

theorem check_eq_ok_iff (doubles : Doubles) (dt : DateTime) : dt.check doubles = .ok () ↔
      InRange dt ∧ (60 ≤ dt.second.value → dt.checkLeapSecond doubles = .ok ()) := by
  have excluding : ∀ (low high i : Int), (Range.mk low high true).Admits i ↔
      low ≤ i ∧ i < high := by
    intro low high i
    simp [Range.Admits]
  have second : (Range.mk 0 62 true).Admits dt.second.value ↔
      0 ≤ dt.second.value ∧ dt.second.value < 62 := by
    simp [Range.Admits]
  have leap : (if 60 ≤ dt.second.value then dt.checkLeapSecond doubles else .ok ()) = .ok () ↔
      (60 ≤ dt.second.value → dt.checkLeapSecond doubles = .ok ()) := by
    split
    · next isLeap => exact ⟨fun ok _ => ok, fun ok => ok isLeap⟩
    · next notLeap => exact iff_of_true rfl fun isLeap => absurd isLeap notLeap
  simp only [DateTime.check, DateTime.checkTime, Except.check_bind_eq_ok_iff,
    checkDate_eq_ok_iff, checkValue_ok_iff, excluding, second, leap]
  constructor
  · rintro ⟨ymd, hour, minute, second, leap⟩
    exact ⟨⟨ymd, hour, minute, second⟩, leap⟩
  · rintro ⟨inRange, leap⟩
    exact ⟨inRange.ymd, inRange.hour, inRange.minute, inRange.second, leap⟩

/-- The second from which the carry starts. -/
def carriedSecond (dt : DateTime) : Int := if 60 ≤ dt.second.value then 59 else dt.wholeSecond

/-- The seconds since midnight, where a leap second counts as the one before it. -/
def secondOfDay (dt : DateTime) : Int := 3600 * dt.hour + 60 * dt.minute + carriedSecond dt

/-- `a % 60` comes out exactly. -/
def TakesWhole (doubles : Doubles) (dt : DateTime) (shift : Int) : Prop :=
  (dt.second.plus shift).modSixty doubles = (dt.wholeSecond + shift) % 60

/-- The seconds that a change of the time zone carries exactly. -/
def CarriesWhole (doubles : Doubles) (dt : DateTime) (timezone : Int) : Prop :=
  if 60 ≤ dt.second.value then (timezone - dt.timezone) % 60 = 0
  else dt.second.value = dt.wholeSecond ∧ TakesWhole doubles dt (timezone - dt.timezone)

/-- The seconds that `posix` carries exactly. -/
def ReadsWhole (doubles : Doubles) (dt : DateTime) : Prop :=
  60 ≤ dt.second.value ∨ dt.timezone = 0 ∨ TakesWhole doubles dt (-dt.timezone)

end RakudoStar.Temporal
