import RakudoStar.Foundation.Gregorian

/-!
# Dates and day counts

The role `Dateish` and the class `Date`. The operator `div` of two `Int`s is `mp_div`, which
truncates, while `%` takes the sign of the divisor.
-/

namespace RakudoStar.Temporal

open Foundation

/-- `infix:<div>`, for the divisors of these methods, which are not zero. -/
def div (a b : Int) : Int := a.tdiv b

/-- What a variable that is declared `int`, or an operator on two such values, keeps. -/
def native (i : Int) : Int := (i + 9223372036854775808) % 18446744073709551616 - 9223372036854775808

structure Range where
  low : Int
  high : Int
  excludesHigh : Bool
  deriving DecidableEq, Repr

def Range.Admits (range : Range) (val : Rat) : Prop :=
  (range.low : Rat) ≤ val ∧
    if range.excludesHigh then val < (range.high : Rat) else val ≤ (range.high : Rat)

instance (range : Range) (val : Rat) : Decidable (range.Admits val) := by
  unfold Range.Admits
  infer_instance

structure OutOfRange where
  what : String
  got : Rat
  range : Range
  comment : Option String
  deriving DecidableEq, Repr

def isLeapYear (y : Int) : Bool := y % 4 == 0 && !(y % 100 == 0) || y % 400 == 0

def daysInMonth (year month : Int) : Int :=
  if month = 2 then (if isLeapYear year then 29 else 28)
  else if month = 4 ∨ month = 6 ∨ month = 9 ∨ month = 11 then 30
  else 31

def daycountFromYmd (date : Gregorian.Date) : Int :=
  if date.month < 3 then formula (date.year - 1) (date.month + 12) date.day
  else formula date.year date.month date.day
where
  formula (y m d : Int) : Int :=
    -678973 + d + div (153 * m - 2) 5
      + 365 * y + div y 4
      - div y 100 + div y 400

/-- `4 * (..)` and the divisions work on `Int`s; an assignment makes an `int` again. -/
def ymdFromDaycount (daycount : Int) : Gregorian.Date :=
  let day := native (daycount + 678881)
  let t := native (div (4 * native (day + 36525)) 146097 - 1)
  let year := native (100 * t)
  let day := native (day - native (native (36524 * t) + t / 4))
  let t := native (div (4 * native (day + 366)) 1461 - 1)
  let year := native (year + t)
  let day := native (day - native (native (365 * t) + t / 4))
  let month := native (div (native (5 * day) + 2) 153)
  let day := native (day - (div (2 + (native (month * 153))) 5 - 1))
  if 9 < month then ⟨native (year + 1), native (native (month - 12) + 3), day⟩
  else ⟨year, native (month + 3), day⟩

def dayOfWeek (daycount : Int) : Int := (daycount + 2) % 7 + 1

def checkValue (val : Rat) (name : String) (range : Range) : Except OutOfRange Unit :=
  if range.Admits val then .ok ()
  else .error { what := name, got := val, range, comment := none }

def checkDate (date : Gregorian.Date) : Except OutOfRange Unit := do
  checkValue date.month "month" ⟨1, 12, false⟩
  checkValue date.day ("day of " ++ toString date.year ++ "/" ++ toString date.month)
    ⟨1, daysInMonth date.year date.month, false⟩

/-- The attributes of a `Date`. -/
structure Date where
  ymd : Gregorian.Date
  daycount : Int
  deriving DecidableEq, Repr

namespace Date

/-- `Date.new` of a year, a month and a day. -/
def new (ymd : Gregorian.Date) : Except OutOfRange Date := do
  checkDate ymd
  .ok ⟨ymd, daycountFromYmd ymd⟩

def newFromDaycount (daycount : Int) : Date := ⟨ymdFromDaycount daycount, daycount⟩

def succ (date : Date) : Date := newFromDaycount (date.daycount + 1)

def pred (date : Date) : Date := newFromDaycount (date.daycount - 1)

/-- `infix:<+>` of a date and an integer. -/
def plus (date : Date) (x : Int) : Date := newFromDaycount (date.daycount + x)

/-- `infix:<->` of a date and an integer. -/
def minus (date : Date) (x : Int) : Date := newFromDaycount (date.daycount - x)

/-- `infix:<->` of two dates. -/
def difference (a b : Date) : Int := a.daycount - b.daycount

/-- `infix:<cmp>` and `infix:«<=>»`. -/
def cmp (a b : Date) : Ordering := compare a.daycount b.daycount

end Date

/-- What becomes of a fraction in floating point: its `floor`, and `($a % $b).Int`. -/
structure Doubles where
  floor : Rat → Int
  mod : Rat → Int → Int

/-- The attribute `$!second`. -/
inductive Second where
  | int (i : Int)
  | rat (q : Rat)
  deriving DecidableEq, Repr

def Second.value : Second → Rat
  | .int i => i
  | .rat q => q

def Second.plus (shift : Int) : Second → Second
  | .int i => .int (i + shift)
  | .rat q => .rat (q + shift)

def rationalFloor (q : Rat) : Int :=
  if q.den = 1 then q.num
  else if q.num < 0 then div q.num q.den - 1
  else div q.num q.den

/-- `floor $a / 60` for an integer. -/
def floorSixtieth (i : Int) : Int := rationalFloor ((i : Rat) / 60)

/-- `floor $a / 60`; a quotient is no `Rat` any more when its denominator is too large. -/
def Second.floorSixtieth (doubles : Doubles) : Second → Int
  | .int i => RakudoStar.Temporal.floorSixtieth i
  | .rat q =>
    if (q / 60).den < 18446744073709551616 then rationalFloor (q / 60) else doubles.floor (q / 60)

/-- `($a % 60).Int`. -/
def Second.modSixty (doubles : Doubles) : Second → Int
  | .int i => i % 60
  | .rat q => doubles.mod q 60

@[simp] theorem Second.value_int (i : Int) : (Second.int i).value = i := rfl

@[simp] theorem Second.plus_int (shift i : Int) : (Second.int i).plus shift = .int (i + shift) :=
  rfl

@[simp] theorem Second.modSixty_int (doubles : Doubles) (i : Int) :
    (Second.int i).modSixty doubles = i % 60 :=
  rfl

structure DateTime where
  ymd : Gregorian.Date
  hour : Int
  minute : Int
  second : Second
  timezone : Int
  deriving DecidableEq, Repr

namespace DateTime

def wholeSecond (dt : DateTime) : Int :=
  match dt.second with
  | .int i => i
  | .rat q => rationalFloor q

/-- A leap second stays one, and counts as second 59 for the carry. -/
def inTimezone (doubles : Doubles) (dt : DateTime) (timezone : Int) : DateTime :=
  if timezone = dt.timezone then dt
  else
    let a := (if 60 ≤ dt.second.value then .int 59 else dt.second).plus (timezone - dt.timezone)
    let second := if 60 ≤ dt.second.value then dt.second else .int (a.modSixty doubles)
    let b := dt.minute + a.floorSixtieth doubles
    let minute := b % 60
    let c := dt.hour + floorSixtieth b
    let hour := c % 24
    let days := rationalFloor ((c : Rat) / 24)
    let ymd := if days ≠ 0 then ymdFromDaycount (daycountFromYmd dt.ymd + days) else dt.ymd
    { ymd, hour, minute, second, timezone }

def utc (doubles : Doubles) (dt : DateTime) : DateTime := dt.inTimezone doubles 0

/-- The algorithm in `posix`, for a time in UTC. -/
def clock (dt : DateTime) : Int :=
  let a := div (14 - dt.ymd.month) 12
  let y := dt.ymd.year + 4800 - a
  let m := dt.ymd.month + 12 * a - 3
  let jd := dt.ymd.day + div (153 * m + 2) 5 + 365 * y
    + div y 4 - div y 100 + div y 400 - 32045
  (jd - 2440588) * 24 * 60 * 60 + 60 * (60 * dt.hour + dt.minute) + dt.wholeSecond

def posix (doubles : Doubles) (dt : DateTime) : Int :=
  if dt.timezone = 0 then dt.clock else (dt.utc doubles).clock

/-- `DateTime.new` of an `Int`. -/
def newFromPosix (doubles : Doubles) (time : Int) : DateTime :=
  let second := time % 60
  let time := div time 60
  let minute := time % 60
  let time := div time 60
  let hour := time % 24
  let time := div time 24
  let time := time + 2440588
  let a := time + 32044
  let b := div (4 * a + 3) 146097
  let c := a - div (146097 * b) 4
  let d := div (4 * c + 3) 1461
  let e := c - div (d * 1461) 4
  let m := div (5 * e + 2) 153
  let day := e - div (153 * m + 2) 5 + 1
  let month := m + 3 - 12 * div m 10
  let year := b * 100 + d - 4800 + div m 10
  inTimezone doubles ⟨⟨year, month, day⟩, hour, minute, .int second, 0⟩ 0

/-- `%0..d` of `sprintf`. -/
def zeroPadded (width : Nat) (i : Int) : String :=
  if i < 0 then "-" ++ digits (width - 1) i.natAbs else digits width i.natAbs
where
  digits (width n : Nat) : String :=
    String.ofList (List.replicate (width - (Nat.repr n).length) '0') ++ Nat.repr n

def dateText (ymd : Gregorian.Date) : String :=
  zeroPadded 4 ymd.year ++ "-" ++ zeroPadded 2 ymd.month ++ "-" ++ zeroPadded 2 ymd.day

def leapSecondDates : List String :=
  ["1972-06-30", "1972-12-31", "1973-12-31", "1974-12-31", "1975-12-31", "1976-12-31",
    "1977-12-31", "1978-12-31", "1979-12-31", "1981-06-30", "1982-06-30", "1983-06-30",
    "1985-06-30", "1987-12-31", "1989-12-31", "1990-12-31", "1992-06-30", "1993-06-30",
    "1994-06-30", "1995-12-31", "1997-06-30", "1998-12-31", "2005-12-31", "2008-12-31",
    "2012-06-30"]

def noLeapSecond (dt : DateTime) (comment : String) : OutOfRange :=
  { what := "second", got := dt.second.value, range := ⟨0, 60, true⟩, comment := some comment }

def checkLeapSecond (doubles : Doubles) (dt : DateTime) : Except OutOfRange Unit :=
  if ¬ dt.second.value < 61 then .error (dt.noLeapSecond "No second 61 has yet been defined")
  else if ¬ ((dt.utc doubles).hour = 23 ∧ (dt.utc doubles).minute = 59) then
    .error (dt.noLeapSecond "a leap second can occur only at hour 23 and minute 59 UTC")
  else if dateText (dt.utc doubles).ymd ∉ leapSecondDates then
    .error (dt.noLeapSecond ("There is no leap second on UTC " ++ dateText (dt.utc doubles).ymd))
  else .ok ()

def checkTime (doubles : Doubles) (dt : DateTime) : Except OutOfRange Unit := do
  checkValue dt.hour "hour" ⟨0, 24, true⟩
  checkValue dt.minute "minute" ⟨0, 60, true⟩
  checkValue dt.second.value "second" ⟨0, 62, true⟩
  if 60 ≤ dt.second.value then dt.checkLeapSecond doubles else .ok ()

/-- The checks of `DateTime.new`. -/
def check (doubles : Doubles) (dt : DateTime) : Except OutOfRange Unit := do
  checkDate dt.ymd
  dt.checkTime doubles

end DateTime

end RakudoStar.Temporal
