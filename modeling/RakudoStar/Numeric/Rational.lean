import RakudoStar.Bigint.Power

/-!
# Rational numbers

A `Rat` or a `FatRat` holds a numerator and a denominator. Each operator hands a fraction to
`DIVIDE_NUMBERS`, which reduces it and decides on its type. Big integers are integers here, but
for the powers.
-/

namespace RakudoStar.Numeric

open Bigint RakudoStar.Except

/-- The attributes of an object that does the role `Rational`. -/
structure Rational where
  numerator : Int
  denominator : Int
  deriving DecidableEq, Repr

/-- The two classes that do the role. -/
inductive RationalType where
  | rat
  | fatRat
  deriving DecidableEq, Repr

inductive Operand where
  | int (i : Int)
  | rational (type : RationalType) (r : Rational)
  deriving DecidableEq, Repr

/-- A floating point number, by the operation that it is the result of. -/
inductive Num where
  | quotient (numerator denominator : Int)
  | power (base exponent : Int)
  | infinity (sign : Sign)
  deriving DecidableEq, Repr

/-- What an operator returns. -/
inductive Value where
  | exact (operand : Operand)
  | num (n : Num)
  deriving DecidableEq, Repr

inductive RuntimeError where
  | divideByZero
  | typeCheckFailed (parameter : String)
  | bigint (fault : Fault)
  deriving DecidableEq, Repr

def uint64Upper : Int := 2 ^ 64

def gcd (a b : Int) : Int := Int.gcd a b

def div (a b : Int) : Except RuntimeError Int :=
  if b = 0 then .error .divideByZero else .ok (a.tdiv b)

variable {fmt : DigitFormat}

/-- `infix:<**>` of two integers, by `nqp_bigint_pow`. -/
def intPow (multiplier : Multiplier fmt) (a b : Int) : Except RuntimeError Value :=
  match nqpBigintPow multiplier (P6bigint.ofInt fmt a) (P6bigint.ofInt fmt b) with
  | .ok (.integer _ i) => .ok (.exact (.int (i.toInt fmt)))
  | .ok (.infinity sign) => .ok (.num (.infinity sign))
  | .ok (.float base exponent) => .ok (.num (.power (base.toInt fmt) (exponent.toInt fmt)))
  | .error fault => .error (.bigint fault)

/-- What `DIVIDE_NUMBERS` and `Rational.new` have in common. -/
def reduce (nu de : Int) : Except RuntimeError Rational := do
  let numerator ← div nu (gcd nu de)
  let denominator ← div de (gcd nu de)
  if denominator < 0 then .ok ⟨-numerator, -denominator⟩
  else .ok ⟨numerator, denominator⟩

def rationalNew (type : RationalType) (nu de : Int) : Except RuntimeError Operand := do
  let r ← reduce nu de
  .ok (.rational type r)

/-- The check of a parameter that is declared `Int:D`. -/
def bindInt (parameter : String) : Value → Except RuntimeError Int
  | .exact (.int i) => .ok i
  | _ => .error (.typeCheckFailed parameter)

def Operand.isFatRat : Operand → Bool
  | .rational .fatRat _ => true
  | _ => false

/-- The type of a result, for a denominator in lowest terms. -/
def resultOf (t1 t2 : Operand) (r : Rational) : Value :=
  if t1.isFatRat ∨ t2.isFatRat then .exact (.rational .fatRat r)
  else if r.denominator < uint64Upper then .exact (.rational .rat r)
  else .num (.quotient r.numerator r.denominator)

def divideNumbers (nu de : Value) (t1 t2 : Operand) : Except RuntimeError Value := do
  let nu ← bindInt "nu" nu
  let de ← bindInt "de" de
  let r ← reduce nu de
  .ok (resultOf t1 t2 r)

/-- `DIVIDE_NUMBERS` of two integers. -/
def divideInts (nu de : Int) (t1 t2 : Operand) : Except RuntimeError Value :=
  divideNumbers (.exact (.int nu)) (.exact (.int de)) t1 t2

def prefixMinus : Operand → Except RuntimeError Operand
  | .int a => .ok (.int (-a))
  | .rational type a => rationalNew type (-a.numerator) a.denominator

def infixPlus : Operand → Operand → Except RuntimeError Value
  | .rational t a, .rational u b => do
    let gcd := gcd a.denominator b.denominator
    let scaleA ← div b.denominator gcd
    let scaleB ← div a.denominator gcd
    divideInts (a.numerator * scaleA + b.numerator * scaleB) (scaleB * b.denominator)
      (.rational t a) (.rational u b)
  | .rational t a, .int b =>
    divideInts (a.numerator + b * a.denominator) a.denominator (.rational t a) (.int b)
  | .int a, .rational u b =>
    divideInts (a * b.denominator + b.numerator) b.denominator (.int a) (.rational u b)
  | .int a, .int b => .ok (.exact (.int (a + b)))

def infixMinus : Operand → Operand → Except RuntimeError Value
  | .rational t a, .rational u b => do
    let gcd := gcd a.denominator b.denominator
    let scaleA ← div b.denominator gcd
    let scaleB ← div a.denominator gcd
    divideInts (a.numerator * scaleA - b.numerator * scaleB) (scaleB * b.denominator)
      (.rational t a) (.rational u b)
  | .rational t a, .int b =>
    divideInts (a.numerator - b * a.denominator) a.denominator (.rational t a) (.int b)
  | .int a, .rational u b =>
    divideInts (a * b.denominator - b.numerator) b.denominator (.int a) (.rational u b)
  | .int a, .int b => .ok (.exact (.int (a - b)))

def infixTimes : Operand → Operand → Except RuntimeError Value
  | .rational t a, .rational u b =>
    divideInts (a.numerator * b.numerator) (a.denominator * b.denominator)
      (.rational t a) (.rational u b)
  | .rational t a, .int b =>
    divideInts (a.numerator * b) a.denominator (.rational t a) (.int b)
  | .int a, .rational u b =>
    divideInts (a * b.numerator) b.denominator (.int a) (.rational u b)
  | .int a, .int b => .ok (.exact (.int (a * b)))

def infixDivide : Operand → Operand → Except RuntimeError Value
  | .rational t a, .rational u b =>
    divideInts (a.numerator * b.denominator) (a.denominator * b.numerator)
      (.rational t a) (.rational u b)
  | .rational t a, .int b =>
    divideInts a.numerator (a.denominator * b) (.rational t a) (.int b)
  | .int a, .rational u b =>
    divideInts (b.denominator * a) b.numerator (.int a) (.rational u b)
  | .int a, .int b => divideInts a b (.int a) (.int b)

/-- `infix:<**>` with an integer as its exponent. -/
def infixPower (multiplier : Multiplier fmt) : Operand → Int → Except RuntimeError Value
  | .rational t a, b => do
    let nu ← intPow multiplier a.numerator b
    let de ← intPow multiplier a.denominator b
    divideNumbers nu de (.rational t a) (.int b)
  | .int a, b => intPow multiplier a b

def infixEqual : Operand → Operand → Bool
  | .rational _ a, .rational _ b => a.numerator == b.numerator && a.denominator == b.denominator
  | .rational _ a, .int b => a.numerator == b && a.denominator == 1
  | .int a, .rational _ b => a == b.numerator && b.denominator == 1
  | .int a, .int b => a == b

def sides : Operand → Operand → Int × Int
  | .rational _ a, .rational _ b =>
    (a.numerator * b.denominator, b.numerator * a.denominator)
  | .rational _ a, .int b => (a.numerator, b * a.denominator)
  | .int a, .rational _ b => (a * b.denominator, b.numerator)
  | .int a, .int b => (a, b)

def infixLess (a b : Operand) : Bool := (sides a b).1 < (sides a b).2

def infixLessEqual (a b : Operand) : Bool := (sides a b).1 ≤ (sides a b).2

def infixGreater (a b : Operand) : Bool := (sides a b).1 > (sides a b).2

def infixGreaterEqual (a b : Operand) : Bool := (sides a b).1 ≥ (sides a b).2

def infixCompare (a b : Operand) : Ordering := compare (sides a b).1 (sides a b).2

end RakudoStar.Numeric
