import RakudoStar.Temporal.TimeZone

/-!
# The instant of a time

A change of the time zone shifts the second of the day and moves the date over as many
midnights. Two time zones then read the same time in UTC.
-/

namespace RakudoStar.Temporal

open Foundation Int

variable {doubles : Doubles} {dt : DateTime} {timezone : Int} {other : DateTime}

/-- The seconds from the midnight before, as they are in another time zone. -/
def shiftedSecond (dt : DateTime) (timezone : Int) : Int :=
  secondOfDay dt + (timezone - dt.timezone)

theorem inTimezone_of_ne (differs : timezone ≠ dt.timezone) {start : Second} {carry : Int}
    (startEq : start = if 60 ≤ dt.second.value then .int 59 else dt.second)
    (carryEq : carry = (start.plus (timezone - dt.timezone)).floorSixtieth doubles) :
    dt.inTimezone doubles timezone =
      { ymd := moved dt.ymd ((dt.hour + (dt.minute + carry) / 60) / 24)
        hour := (dt.hour + (dt.minute + carry) / 60) % 24
        minute := (dt.minute + carry) % 60
        second := if 60 ≤ dt.second.value then dt.second
          else .int ((start.plus (timezone - dt.timezone)).modSixty doubles)
        timezone } := by
  subst carryEq startEq
  rw [DateTime.inTimezone, if_neg differs]
  simp only [floorSixtieth_eq, floorDay_eq, moved]

/-- A second without a fraction, or a leap second. -/
def Whole (dt : DateTime) : Prop := 60 ≤ dt.second.value ∨ dt.second.value = dt.wholeSecond

theorem floorSixtieth_int (i : Int) : (Second.int i).floorSixtieth doubles = i / 60 :=
  floorSixtieth_eq i

theorem carry_of_whole (whole : Whole dt) (shift : Int) :
    ((if 60 ≤ dt.second.value then Second.int 59 else dt.second).plus shift).floorSixtieth doubles =
      (carriedSecond dt + shift) / 60 := by
  rw [carriedSecond]
  by_cases leap : 60 ≤ dt.second.value
  · rw [if_pos leap, if_pos leap]
    exact floorSixtieth_int _
  rw [if_neg leap, if_neg leap]
  have value := whole.resolve_left leap
  rw [DateTime.wholeSecond] at value ⊢
  cases second : dt.second with
  | int i => exact floorSixtieth_int _
  | rat q =>
    rw [second, Second.value] at value
    have sum : q + (shift : Rat) = ((rationalFloor q + shift : Int) : Rat) := by
      rw [cast_add, ← value]
    have small : (((rationalFloor q + shift : Int) : Rat) / 60).den < 18446744073709551616 := by
      have divides := Rat.den_dvd (rationalFloor q + shift) 60
      rw [Rat.divInt_eq_div, cast_ofNat] at divides
      have atMost := le_of_dvd (by decide) divides
      omega
    rw [Second.plus, Second.floorSixtieth, sum, if_pos small]
    exact floorSixtieth_eq _

theorem InRange.carriedSecond (inRange : InRange dt) :
    0 ≤ carriedSecond dt ∧ carriedSecond dt < 60 := by
  rw [RakudoStar.Temporal.carriedSecond]
  split
  · omega
  next notLeap =>
    rw [DateTime.wholeSecond_eq, floor_lt]
    exact ⟨floor_nonneg.mpr inRange.second.1, lt_of_not_ge notLeap⟩

theorem InRange.secondOfDay (inRange : InRange dt) :
    0 ≤ secondOfDay dt ∧ secondOfDay dt < 86400 := by
  have hour := inRange.hour
  have minute := inRange.minute
  have second := inRange.carriedSecond
  rw [RakudoStar.Temporal.secondOfDay]
  omega

theorem inTimezone_fields (inRange : InRange dt) (whole : Whole dt) (timezone : Int) :
    (dt.inTimezone doubles timezone).ymd = moved dt.ymd (shiftedSecond dt timezone / 86400) ∧
      (dt.inTimezone doubles timezone).hour = shiftedSecond dt timezone / 3600 % 24 ∧
      (dt.inTimezone doubles timezone).minute = shiftedSecond dt timezone / 60 % 60 ∧
      (dt.inTimezone doubles timezone).timezone = timezone := by
  by_cases same : timezone = dt.timezone
  · have day := inRange.secondOfDay
    have hour := inRange.hour
    have minute := inRange.minute
    have second := inRange.carriedSecond
    have midnight : secondOfDay dt / 86400 = 0 := by omega
    rw [DateTime.inTimezone, if_pos same, shiftedSecond, same, sub_self, add_zero, midnight,
      moved, if_neg (not_not.mpr rfl)]
    rw [secondOfDay]
    exact ⟨rfl, by omega, by omega, rfl⟩
  rw [inTimezone_of_ne same rfl rfl, carry_of_whole whole]
  dsimp only
  have hours : dt.hour + (dt.minute + (carriedSecond dt + (timezone - dt.timezone)) / 60) / 60 =
      shiftedSecond dt timezone / 3600 := by
    rw [shiftedSecond, secondOfDay]
    omega
  have minutes : (dt.minute + (carriedSecond dt + (timezone - dt.timezone)) / 60) % 60 =
      shiftedSecond dt timezone / 60 % 60 := by
    rw [shiftedSecond, secondOfDay]
    omega
  rw [hours, minutes]
  refine ⟨?_, rfl, rfl, rfl⟩
  congr 1
  omega

theorem inTimezone_second_of_leap (leap : 60 ≤ dt.second.value) (timezone : Int) :
    (dt.inTimezone doubles timezone).second = dt.second := by
  by_cases same : timezone = dt.timezone
  · rw [DateTime.inTimezone, if_pos same]
  · rw [inTimezone_of_ne same rfl rfl]
    exact if_pos leap

theorem inTimezone_second_of_ne (notLeap : ¬ 60 ≤ dt.second.value)
    (differs : timezone ≠ dt.timezone) : (dt.inTimezone doubles timezone).second =
      .int ((dt.second.plus (timezone - dt.timezone)).modSixty doubles) := by
  rw [inTimezone_of_ne differs rfl rfl]
  rw [if_neg notLeap, if_neg notLeap]

theorem inTimezone_second (inRange : InRange dt) (notLeap : ¬ 60 ≤ dt.second.value)
    (value : dt.second.value = dt.wholeSecond)
    (takes : timezone = dt.timezone ∨ TakesWhole doubles dt (timezone - dt.timezone)) :
    (dt.inTimezone doubles timezone).second.value =
      ((shiftedSecond dt timezone % 60 : Int) : Rat) := by
  have carried : carriedSecond dt = dt.wholeSecond := if_neg notLeap
  have range := inRange.carriedSecond
  by_cases same : timezone = dt.timezone
  · rw [DateTime.inTimezone, if_pos same, value, shiftedSecond, secondOfDay, same, carried]
    congr 1
    omega
  rw [inTimezone_second_of_ne notLeap same, Second.value, takes.resolve_left same, shiftedSecond,
    secondOfDay, carried]
  congr 1
  omega

theorem posix_eq : dt.posix doubles = (dt.utc doubles).clock := by
  rw [DateTime.posix, DateTime.utc]
  split
  · next utc => rw [DateTime.inTimezone, if_pos utc.symm]
  · rfl

theorem clock_congr (ymd : dt.ymd = other.ymd) (hour : dt.hour = other.hour)
    (minute : dt.minute = other.minute) :
    dt.clock = other.clock ↔ dt.wholeSecond = other.wholeSecond := by
  rw [DateTime.clock, DateTime.clock, ymd, hour, minute]
  exact add_right_inj _

section
variable (inRange : InRange dt)
include inRange

section
variable (carries : CarriesWhole doubles dt timezone)
include carries

theorem secondOfDay_inTimezone : Whole dt ∧ Whole (dt.inTimezone doubles timezone) ∧
      secondOfDay (dt.inTimezone doubles timezone) = shiftedSecond dt timezone % 86400 := by
  by_cases leap : 60 ≤ dt.second.value
  · have whole : Whole dt := .inl leap
    have fields := @inTimezone_fields doubles _ inRange whole timezone
    have second := @inTimezone_second_of_leap doubles _ leap timezone
    rw [CarriesWhole, if_pos leap] at carries
    have leap' : 60 ≤ (dt.inTimezone doubles timezone).second.value := second ▸ leap
    have carried : carriedSecond dt = 59 := if_pos leap
    refine ⟨whole, .inl leap', ?_⟩
    rw [secondOfDay, fields.2.1, fields.2.2.1, carriedSecond, if_pos leap', shiftedSecond,
      secondOfDay, carried]
    omega
  rw [CarriesWhole, if_neg leap] at carries
  have whole : Whole dt := .inr carries.1
  have fields := @inTimezone_fields doubles _ inRange whole timezone
  have second := inTimezone_second inRange leap carries.1 (.inr carries.2)
  have low := emod_lt_of_pos (shiftedSecond dt timezone) (by decide : (0 : Int) < 60)
  have notLeap : ¬ 60 ≤ (dt.inTimezone doubles timezone).second.value := by
    rw [second, not_le]
    exact_mod_cast low
  have wholeSecond : (dt.inTimezone doubles timezone).wholeSecond =
      shiftedSecond dt timezone % 60 := by
    rw [DateTime.wholeSecond_eq, second, floor_intCast]
  refine ⟨whole, .inr (by rw [wholeSecond, second]), ?_⟩
  rw [secondOfDay, fields.2.1, fields.2.2.1, carriedSecond, if_neg notLeap, wholeSecond]
  omega

/-- The equality of the fields, where seconds are compared by value. -/
structure SameFields (dt other : DateTime) : Prop where
  ymd : dt.ymd = other.ymd
  hour : dt.hour = other.hour
  minute : dt.minute = other.minute
  second : dt.second.value = other.second.value
  timezone : dt.timezone = other.timezone

/-- What a change of the time zone should keep. -/
structure KeepsInstant (doubles : Doubles) (dt : DateTime) (timezone : Int) : Prop where
  valid : (dt.inTimezone doubles timezone).check doubles = .ok ()
  posix : (dt.inTimezone doubles timezone).posix doubles = dt.posix doubles
  fraction : Int.fract (dt.inTimezone doubles timezone).second.value = Int.fract dt.second.value
  back : SameFields ((dt.inTimezone doubles timezone).inTimezone doubles dt.timezone) dt

theorem shiftedSecond_back (other : Int) : shiftedSecond (dt.inTimezone doubles timezone) other =
      shiftedSecond dt other - 86400 * (shiftedSecond dt timezone / 86400) := by
  rcases secondOfDay_inTimezone inRange carries with ⟨whole, _, day⟩
  have fields := @inTimezone_fields doubles _ inRange whole timezone
  rw [shiftedSecond, day, fields.2.2.2, shiftedSecond, shiftedSecond]
  omega

theorem utc_fields (inRange' : InRange (dt.inTimezone doubles timezone))
    (movesBack : MovesBack dt.ymd (shiftedSecond dt timezone / 86400)) :
    ((dt.inTimezone doubles timezone).utc doubles).ymd = (dt.utc doubles).ymd ∧
      ((dt.inTimezone doubles timezone).utc doubles).hour = (dt.utc doubles).hour ∧
      ((dt.inTimezone doubles timezone).utc doubles).minute = (dt.utc doubles).minute := by
  rcases secondOfDay_inTimezone inRange carries with ⟨whole, whole', day⟩
  have fields := @inTimezone_fields doubles _ inRange whole timezone
  have utc := @inTimezone_fields doubles _ inRange whole 0
  have utc' := @inTimezone_fields doubles _ inRange' whole' 0
  have shifted := shiftedSecond_back inRange carries 0
  have days : shiftedSecond (dt.inTimezone doubles timezone) 0 / 86400 =
      shiftedSecond dt 0 / 86400 - shiftedSecond dt timezone / 86400 := by
    rw [shifted]
    omega
  rw [DateTime.utc, DateTime.utc, utc.1, utc.2.1, utc.2.2.1, utc'.1, utc'.2.1, utc'.2.2.1, days,
    fields.1, moved_moved inRange.ymd movesBack]
  refine ⟨rfl, ?_, ?_⟩
  · rw [shifted]
    omega
  · rw [shifted]
    omega

end

theorem utc_wholeSecond (notLeap : ¬ 60 ≤ dt.second.value)
    (value : dt.second.value = dt.wholeSecond)
    (takes : dt.timezone = 0 ∨ TakesWhole doubles dt (-dt.timezone)) :
    (dt.utc doubles).wholeSecond = shiftedSecond dt 0 % 60 := by
  rw [DateTime.wholeSecond_eq, DateTime.utc, inTimezone_second inRange notLeap value, floor_intCast]
  rw [zero_sub]
  exact takes.imp_left Eq.symm

section
variable (carries : CarriesWhole doubles dt timezone)
include carries

theorem second_cases : 60 ≤ dt.second.value ∧ (dt.inTimezone doubles timezone).second = dt.second ∨
      ¬ 60 ≤ dt.second.value ∧ dt.second.value = dt.wholeSecond ∧
        (dt.inTimezone doubles timezone).second.value =
          ((shiftedSecond dt timezone % 60 : Int) : Rat) ∧
        ¬ 60 ≤ (dt.inTimezone doubles timezone).second.value ∧
        (dt.inTimezone doubles timezone).wholeSecond = shiftedSecond dt timezone % 60 := by
  by_cases leap : 60 ≤ dt.second.value
  · exact .inl ⟨leap, inTimezone_second_of_leap leap timezone⟩
  rw [CarriesWhole, if_neg leap] at carries
  have second := inTimezone_second inRange leap carries.1 (.inr carries.2)
  have low := emod_lt_of_pos (shiftedSecond dt timezone) (by decide : (0 : Int) < 60)
  refine .inr ⟨leap, carries.1, second, ?_, ?_⟩
  · rw [second, not_le]
    exact_mod_cast low
  · rw [DateTime.wholeSecond_eq, second, floor_intCast]

theorem back_fields (inRange' : InRange (dt.inTimezone doubles timezone)) :
    ((dt.inTimezone doubles timezone).inTimezone doubles dt.timezone).ymd =
        moved (moved dt.ymd (shiftedSecond dt timezone / 86400))
          (-(shiftedSecond dt timezone / 86400)) ∧
      ((dt.inTimezone doubles timezone).inTimezone doubles dt.timezone).hour = dt.hour ∧
      ((dt.inTimezone doubles timezone).inTimezone doubles dt.timezone).minute = dt.minute ∧
      ((dt.inTimezone doubles timezone).inTimezone doubles dt.timezone).timezone = dt.timezone := by
  rcases secondOfDay_inTimezone inRange carries with ⟨whole, whole', day⟩
  have fields := @inTimezone_fields doubles _ inRange whole timezone
  have back := @inTimezone_fields doubles _ inRange' whole' dt.timezone
  have dayRange := inRange.secondOfDay
  have hour := inRange.hour
  have minute := inRange.minute
  have second := inRange.carriedSecond
  have shifted : shiftedSecond (dt.inTimezone doubles timezone) dt.timezone =
      secondOfDay dt - 86400 * (shiftedSecond dt timezone / 86400) := by
    rw [shiftedSecond, day, fields.2.2.2, shiftedSecond]
    omega
  have days : shiftedSecond (dt.inTimezone doubles timezone) dt.timezone / 86400 =
      -(shiftedSecond dt timezone / 86400) := by
    rw [shifted]
    omega
  rw [days, fields.1] at back
  refine ⟨back.1, ?_, ?_, back.2.2.2⟩
  · rw [back.2.1, shifted, secondOfDay]
    omega
  · rw [back.2.2.1, shifted, secondOfDay]
    omega

end

end

theorem takesWhole_inTimezone (notLeap : ¬ 60 ≤ dt.second.value)
    (differs : timezone ≠ dt.timezone) (shift : Int) :
    TakesWhole doubles (dt.inTimezone doubles timezone) shift := by
  rw [TakesWhole, DateTime.wholeSecond, inTimezone_second_of_ne notLeap differs]
  rfl

/-- Where the instant is kept, the second is whole or the shift is in whole minutes. -/
theorem KeepsInstant.carries (inRange : InRange dt) (differs : timezone ≠ dt.timezone)
    (keeps : KeepsInstant doubles dt timezone) : CarriesWhole doubles dt timezone := by
  rw [CarriesWhole]
  have inRange' := ((check_eq_ok_iff _ _).mp keeps.valid).1
  have differs' : dt.timezone ≠ (dt.inTimezone doubles timezone).timezone := by
    rw [inTimezone_of_ne differs rfl rfl]
    exact Ne.symm differs
  by_cases leap : 60 ≤ dt.second.value
  · have same := @inTimezone_second_of_leap doubles _ leap timezone
    have leap' : 60 ≤ (dt.inTimezone doubles timezone).second.value := same ▸ leap
    have fields := @inTimezone_fields doubles _ inRange (.inl leap) timezone
    have back := @inTimezone_fields doubles _ inRange' (.inl leap') dt.timezone
    have minute := keeps.back.minute
    have carried : carriedSecond dt = 59 := if_pos leap
    rw [back.2.2.1, shiftedSecond, secondOfDay, carriedSecond, if_pos leap', fields.2.2.1,
      fields.2.2.2, shiftedSecond, secondOfDay, carried] at minute
    rw [if_pos leap]
    omega
  have second := @inTimezone_second_of_ne doubles _ _ leap differs
  have fraction := keeps.fraction
  have back := keeps.back.second
  have secondRange := inRange'.second
  rw [second, Second.value, fract_intCast, Int.fract, ← DateTime.wholeSecond_eq] at fraction
  have value : dt.second.value = dt.wholeSecond := by linarith
  rw [if_neg leap]
  refine ⟨value, ?_⟩
  by_cases leap' : 60 ≤ (dt.inTimezone doubles timezone).second.value
  · rw [inTimezone_second_of_leap leap'] at back
    exact absurd (back ▸ leap') leap
  rw [inTimezone_second_of_ne leap' differs', second, value] at back
  have zone : (dt.inTimezone doubles timezone).timezone = timezone := by
    rw [inTimezone_of_ne differs rfl rfl]
  rw [zone, Second.plus_int, Second.value_int, Second.modSixty_int] at back
  rw [second, Second.value_int] at secondRange leap'
  have same : ((dt.second.plus (timezone - dt.timezone)).modSixty doubles +
      (dt.timezone - timezone)) % 60 = dt.wholeSecond := by
    exact_mod_cast back
  have atLeast : 0 ≤ (dt.second.plus (timezone - dt.timezone)).modSixty doubles := by
    exact_mod_cast secondRange.1
  have atMost : (dt.second.plus (timezone - dt.timezone)).modSixty doubles < 60 := by
    exact_mod_cast not_le.mp leap'
  rw [TakesWhole]
  omega

theorem KeepsInstant.movesBack (inRange : InRange dt) (carries : CarriesWhole doubles dt timezone)
    (keeps : KeepsInstant doubles dt timezone) :
    MovesBack dt.ymd (shiftedSecond dt timezone / 86400) := by
  have inRange' := ((check_eq_ok_iff _ _).mp keeps.valid).1
  rcases secondOfDay_inTimezone inRange carries with ⟨whole, _, _⟩
  have fields := @inTimezone_fields doubles _ inRange whole timezone
  have back := (back_fields inRange carries inRange').1
  rw [keeps.back.ymd] at back
  exact movesBack_of_moved inRange.ymd (fields.1 ▸ inRange'.ymd) back.symm

theorem KeepsInstant.reads (inRange : InRange dt) (differs : timezone ≠ dt.timezone)
    (carries : CarriesWhole doubles dt timezone)
    (movesBack : MovesBack dt.ymd (shiftedSecond dt timezone / 86400))
    (keeps : KeepsInstant doubles dt timezone) : ReadsWhole doubles dt := by
  have inRange' := ((check_eq_ok_iff _ _).mp keeps.valid).1
  have utc := utc_fields inRange carries inRange' movesBack
  have posix := keeps.posix
  rw [posix_eq, posix_eq, clock_congr utc.1 utc.2.1 utc.2.2] at posix
  rcases second_cases inRange carries with ⟨leap, _⟩ | ⟨notLeap, value, second, notLeap', whole⟩
  · exact .inl leap
  by_cases zone : dt.timezone = 0
  · exact .inr (.inl zone)
  have carried : carriedSecond dt = dt.wholeSecond := if_neg notLeap
  rw [utc_wholeSecond inRange' notLeap' (by rw [whole, second])
    (.inr (takesWhole_inTimezone notLeap differs _)), shiftedSecond_back inRange carries,
    DateTime.wholeSecond_eq, DateTime.utc, inTimezone_second_of_ne notLeap (Ne.symm zone),
    Second.value_int, floor_intCast, shiftedSecond, secondOfDay, carried, zero_sub] at posix
  refine .inr (.inr ?_)
  rw [TakesWhole, ← posix]
  omega

end RakudoStar.Temporal
