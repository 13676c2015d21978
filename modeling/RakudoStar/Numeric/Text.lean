import RakudoStar.Bigint.RadixExact
import RakudoStar.Numeric.Rational

/-!
# Numbers from text

`Str.Numeric` is a parser written by hand: its subs share the position, and the sub for the
digits has the current character and the radix of the sub around it. Texts are lists of code
points.
-/

namespace RakudoStar.Numeric

open Bigint RakudoStar.Except

/-- Objects of the types `Int`, `Rat` and `Num`. -/
inductive RealNumber (N : Type) where
  | int (i : Int)
  | rat (r : Rational)
  | num (n : N)
  deriving DecidableEq, Repr

/-- What `Numeric` returns.  `Complex.new` makes `Num`s of the parts. -/
inductive Number (N : Type) where
  | real (r : RealNumber N)
  | complex (re im : RealNumber N)
  deriving DecidableEq, Repr

/-- What the parser asks of floating point arithmetic, of big powers and of the character
classes. -/
structure Reader (fmt : DigitFormat) (N : Type) where
  nan : N
  /-- `$Inf`, or `-$Inf`. -/
  infinity : Bool → N
  /-- The coefficient from an integer part, a fraction and its base, and a power of ten. -/
  scientific : Int → Int → Int → Int → N
  /-- `infix:</>`, where an operand is a `Num`. -/
  divide : RealNumber N → RealNumber N → N
  ofNum : Num → N
  multiplier : Multiplier fmt
  /-- Whether a character behind the Latin ones is white space. -/
  uIsspace : Nat → Bool

inductive TextError where
  | strNumeric (reason : String) (pos : Nat)
  | radix (failure : RadixError)
  | runtime (failure : RuntimeError)
  | outOfFuel
  deriving DecidableEq, Repr

/-- The code points of a text. -/
def codes (s : String) : List Nat := s.toList.map Char.toNat

variable {fmt : DigitFormat} {N : Type}

/-- `nqp::radix_I`: the value, the base and the position behind. -/
def radixI (fmt : DigitFormat) (radix : Nat) (str : List Nat) (pos flags : Nat) :
    Except TextError (Int × Int × Int) :=
  match nqpBigintRadix fmt radix str pos flags with
  | .ok parse => .ok (parse.value.toInt fmt, parse.base.toInt fmt, parse.pos)
  | .error failure => .error (.radix failure)

def ord (str : List Nat) (pos : Nat) : Except TextError Nat :=
  match stringOrd str pos with
  | .ok ch => .ok ch
  | .error failure => .error (.radix failure)

def substr (str : List Nat) (pos len : Nat) : List Nat := (str.drop pos).take len

/-- What an `int` variable keeps of an integer that is not negative. -/
def getInt (i : Int) : Int := (i + 9223372036854775808) % 18446744073709551616 - 9223372036854775808

/-- `nqp::index`, for a text of at most one character. -/
def index (haystack : List Nat) : List Nat → Int
  | [] => -1
  | ch :: _ => if ch ∈ haystack then haystack.idxOf ch else -1

/-- `nqp::islt_i($pos, $eos) && nqp::ord($str, $pos)`. -/
def currentChar (str : List Nat) (eos pos : Nat) : Except TextError Nat :=
  if pos < eos then ord str pos else .ok 0

def parseFail {A : Type} (reason : String) (pos : Nat) : Except TextError A :=
  .error (.strNumeric reason pos)

/-- `nqp::iscclass` for the class of white space. -/
def Reader.isWhitespace (reader : Reader fmt N) (ch : Nat) : Bool :=
  if ch < 256 then decide (9 ≤ ch ∧ ch ≤ 13 ∨ ch = 32 ∨ ch = 133 ∨ ch = 160)
  else reader.uIsspace ch

section

variable (fmt) (str : List Nat) (eos : Nat) (neg : Bool) (radix : Int)

/-- Integer part, if any: the value, the position and the current character. -/
def parseInt (ch pos : Nat) : Except TextError (Int × Nat × Nat) :=
  if ch ≠ 46 then do
    let (int, _, p) ← radixI fmt radix.toNat str pos (if neg then 1 else 0)
    if p = -1 then parseFail s!"base-{radix} number must begin with valid digits or '.'" pos
    else do
      let pos := p.toNat
      let ch ← currentChar str eos pos
      .ok (int, pos, ch)
  else .ok (0, pos, ch)

/-- Fraction, if any: the value and its base, the position and the current character. -/
def parseFrac (ch pos : Nat) : Except TextError (Int × Int × Nat × Nat) :=
  if ch = 46 then do
    let pos := pos + 1
    let (frac, base, p) ← radixI fmt radix.toNat str pos ((if neg then 1 else 0) + 4)
    if p = -1 then parseFail "radix point must be followed by one or more valid digits" pos
    else do
      let pos := p.toNat
      let ch ← currentChar str eos pos
      .ok (frac, base, pos, ch)
  else .ok (0, 0, pos, ch)

variable {fmt} (reader : Reader fmt N)

/-- Exponent, behind an `E` or an `e`. -/
def parseExp (int frac base : Int) (pos : Nat) : Except TextError (RealNumber N × Nat) :=
  if radix ≠ 10 then
    parseFail (s!"'E' or 'e' style exponent only allowed on decimal (base-10) numbers, " ++
      s!"not base-{radix}") pos
  else do
    let pos := pos + 1
    let (exp, _, p) ← radixI fmt 10 str pos 2
    if p = -1 then parseFail "'E' or 'e' must be followed by decimal (base-10) integer" pos
    else .ok (.num (reader.scientific int frac base exp), p.toNat)

/-- `$mult_base ** $mult_exp`, where the result has to be an integer. -/
def multiply (base exp : Int) : Except TextError Int :=
  match intPow reader.multiplier base exp with
  | .ok (.exact (.int mult)) => .ok mult
  | .ok _ => .error (.runtime (.typeCheckFailed "$int"))
  | .error failure => .error (.runtime failure)

/-- Multiplier with exponent, behind a `*`. -/
def parseMult (simple : Nat → Except TextError (RealNumber N × Nat)) (pos : Nat) :
    Except TextError (Int × Nat) := do
  let (multBase, pos) ← simple (pos + 1)
  match multBase with
  | .int base =>
    if substr str pos 2 = codes "**" then do
      let (multExp, pos) ← simple (pos + 2)
      match multExp with
      | .int exp => do
        let mult ← multiply reader base exp
        .ok (mult, pos)
      | _ => parseFail "'**' multiplier exponent must be an integer" pos
    else parseFail "'*' multiplier base must be followed by '**' and exponent" pos
  | _ => parseFail "'*' multiplier base must be an integer" pos

/-- An `Int` if there was no radix point, otherwise a `Rat`. -/
def realOf (int frac base : Int) : Except TextError (RealNumber N) :=
  if base = 0 then .ok (.int int)
  else
    match reduce (int * base + frac) base with
    | .ok r => .ok (.rat r)
    | .error failure => .error (.runtime failure)

/-- `parse-int-frac-exp`; `simple` is the sub around it. -/
def parseIntFracExp (simple : Nat → Except TextError (RealNumber N × Nat)) (ch pos : Nat) :
    Except TextError (RealNumber N × Nat) := do
  let (int, pos, ch) ← parseInt fmt str eos neg radix ch pos
  let (frac, base, pos, ch) ← parseFrac fmt str eos neg radix ch pos
  if ch = 69 ∨ ch = 101 then parseExp str radix reader int frac base pos
  else do
    let (mult, pos) ←
      if ch = 42 ∧ substr str pos 2 ≠ codes "**" then parseMult str reader simple pos
      else .ok (1, pos)
    let result ← realOf (int * mult) (frac * mult) base
    .ok (result, pos)

end

section

variable (fmt) (str : List Nat) (eos : Nat) (neg : Bool)

/-- The loop over the digits in brackets, with at most as many rounds as there are characters. -/
def parseBrackets (radix : Int) : Nat → Int → Nat → Except TextError (Int × Nat)
  | 0, result, pos => .ok (result, pos)
  | rounds + 1, result, pos => do
    let ch ← currentChar str eos pos
    if pos < eos ∧ ch ≠ 93 then do
      let (digit, _, p) ← radixI fmt 10 str pos 0
      if p = -1 then
        parseFail (s!"malformed ':{radix}[]' style radix number, expecting comma separated " ++
          "decimal values after opening '['") pos
      else do
        let pos := p.toNat
        if radix ≤ digit then
          parseFail (s!"digit is larger than {radix - 1} in ':{radix}[]' style radix number") pos
        else do
          let ch ← currentChar str eos pos
          parseBrackets radix rounds (result * radix + digit)
            (if pos < eos ∧ ch = 44 then pos + 1 else pos)
    else .ok (result, pos)

variable {fmt} (reader : Reader fmt N)

/-- The digits of a number with a radix in front, up to the character that closes it. -/
def parseClosed (simple : Nat → Except TextError (RealNumber N × Nat)) (radix : Int)
    (ch pos close : Nat) (reason : String) : Except TextError (RealNumber N × Nat) := do
  let (result, pos) ← parseIntFracExp str eos neg radix reader simple ch pos
  let next ← currentChar str eos pos
  if pos < eos ∧ next = close then .ok (result, pos + 1)
  else parseFail reason pos

/-- A number behind the `:` of a radix specifier. -/
def parseRadixed (simple : Nat → Except TextError (RealNumber N × Nat)) (pos : Nat) :
    Except TextError (RealNumber N × Nat) := do
  let (radix, _, p) ← radixI fmt 10 str pos 0
  if p = -1 then parseFail "radix (in decimal) expected after ':'" pos
  else do
    let pos := p.toNat
    let radix := getInt radix
    let ch ← currentChar str eos pos
    if ch = 60 then
      parseClosed str eos neg reader simple radix ch (pos + 1) 62
        s!"malformed ':{radix}<>' style radix number, expecting '>' after the body"
    else if ch = 171 then
      parseClosed str eos neg reader simple radix ch (pos + 1) 187
        s!"malformed ':{radix}«»' style radix number, expecting '»' after the body"
    else if ch = 91 then do
      let (result, pos) ← parseBrackets fmt str eos radix str.length 0 (pos + 1)
      let next ← currentChar str eos pos
      if pos < eos ∧ next = 93 then
        .ok (.int (if neg then -result else result), pos + 1)
      else
        parseFail s!"malformed ':{radix}[]' style radix number, expecting ']' after the body" pos
    else
      parseFail (s!"malformed ':{radix}' style radix number, " ++
        "expecting '<' or '[' after the base") pos

/-- The radix that the letter behind a `0` stands for. -/
def prefixRadix (pos : Nat) : Int :=
  index (codes "  b     o d     x") (substr str (pos + 1) 1)

/-- The sign, if any, and the current character and the position behind it. -/
def parseSign (pos : Nat) : Except TextError (Bool × Nat × Nat) := do
  let ch ← ord str pos
  if ch = 45 ∨ ch = 43 then do
    let next ← currentChar str eos (pos + 1)
    .ok (ch = 45, next, pos + 1)
  else .ok (false, ch, pos)

/-- `parse-simple-number`. Behind a prefix such as `0x` the current character stays the `0`. -/
def parseSimpleNumber : Nat → Nat → Except TextError (RealNumber N × Nat)
  | 0, _ => .error .outOfFuel
  | fuel + 1, pos =>
    if substr str pos 3 = codes "NaN" then .ok (.num reader.nan, pos + 3)
    else do
      let (neg, ch, pos) ← parseSign str eos pos
      if ch = 58 then parseRadixed str eos neg reader (parseSimpleNumber fuel) (pos + 1)
      else if ch = 48 ∧ 2 ≤ prefixRadix str pos then do
        let radix := prefixRadix str pos
        let pos := pos + 2
        let next ← currentChar str eos pos
        let pos := if pos < eos ∧ next = 95 then pos + 1 else pos
        parseIntFracExp str eos neg radix reader (parseSimpleNumber fuel) ch pos
      else if substr str pos 3 = codes "Inf" then .ok (.num (reader.infinity neg), pos + 3)
      else parseIntFracExp str eos neg 10 reader (parseSimpleNumber fuel) ch pos

end

section

variable (str : List Nat) (eos : Nat) (reader : Reader fmt N)

def RealNumber.operand : RealNumber N → Option Operand
  | .int i => some (.int i)
  | .rat r => some (.rational .rat r)
  | .num _ => none

/-- What an operator returned. -/
def Reader.ofValue : Value → RealNumber N
  | .exact (.int i) => .int i
  | .exact (.rational _ r) => .rat r
  | .num n => .num (reader.ofNum n)

/-- The number in front of a `/` and the one behind it. -/
def quotient (result denom : RealNumber N) : Except TextError (RealNumber N) :=
  match result, denom with
  | .int n, .int d =>
    match reduce n d with
    | .ok r => .ok (.rat r)
    | .error failure => .error (.runtime failure)
  | result, denom =>
    match result.operand, denom.operand with
    | some a, some b =>
      match infixDivide a b with
      | .ok value => .ok (reader.ofValue value)
      | .error failure => .error (.runtime failure)
    | _, _ => .ok (.num (reader.divide result denom))

def parseReal (fuel pos : Nat) : Except TextError (RealNumber N × Nat) := do
  let (result, pos) ← parseSimpleNumber str eos reader fuel pos
  if pos = eos then .ok (result, pos)
  else do
    let ch ← ord str pos
    if ch = 47 then
      let pos := pos + 1
      if pos < eos then do
        let (denom, pos) ← parseSimpleNumber str eos reader fuel pos
        let result ← quotient reader result denom
        .ok (result, pos)
      else parseFail "denominator expected after '/'" pos
    else .ok (result, pos)

/-- The `i` or `\i` behind an imaginary part, and the position behind it. -/
def parseImaginary (pos : Nat) : Except TextError (Option Nat) := do
  let ch ← ord str pos
  if ch = 105 then .ok (some (pos + 1))
  else if substr str pos 2 = [92, 105] then .ok (some (pos + 2))
  else .ok none

/-- What may follow the first number: the parts of a complex number. -/
def parseComplex (fuel : Nat) (result : RealNumber N) (pos : Nat) :
    Except TextError (Number N × Nat) := do
  let imaginary ← parseImaginary str pos
  match imaginary with
  | some pos => .ok (.complex (.int 0) result, pos)
  | none =>
    let ch ← ord str pos
    if ch = 45 ∨ ch = 43 then do
      let (im, pos) ← parseReal str eos reader fuel pos
      let reason := "imaginary part of complex number must be followed by 'i' or '\\i'"
      if pos < eos then do
        let imaginary ← parseImaginary str pos
        match imaginary with
        | some pos => .ok (.complex result im, pos)
        | none => parseFail reason pos
      else parseFail reason pos
    else .ok (.real result, pos)

end

/-- The position of the first character that is not white space. -/
def Reader.firstPos (reader : Reader fmt N) (str : List Nat) : Nat :=
  str.findIdx fun ch => !reader.isWhitespace ch

/-- The position behind the last character that is not white space. -/
def Reader.endPos (reader : Reader fmt N) (str : List Nat) : Nat :=
  str.length - str.reverse.findIdx fun ch => !reader.isWhitespace ch

def Reader.numeric (reader : Reader fmt N) (str : List Nat) : Except TextError (Number N) :=
  let pos := reader.firstPos str
  let eos := reader.endPos str
  let fuel := str.length + 1
  if eos ≤ pos then .ok (.real (.int 0))
  else do
    let (result, pos) ← parseReal str eos reader fuel pos
    if pos = eos then .ok (.real result)
    else do
      let (result, pos) ← parseComplex str eos reader fuel result pos
      if pos < eos then parseFail "trailing characters after number" pos
      else .ok result

/-- `mp_s_rmap`, as far as the radix 36. -/
def mpSRmap : List Nat := codes "0123456789ABCDEFGHIJKLMNOPQRSTUVWXYZ"

/-- The digits that `mp_toradix_n` writes, for a number that is not negative. -/
def toradix (radix n : Nat) : List Nat :=
  if n = 0 then codes "0" else (Nat.digits radix n).reverse.map fun digit => mpSRmap.getD digit 0

def baseI (radix : Nat) (n : Int) : List Nat :=
  if n < 0 then 45 :: toradix radix n.natAbs else toradix radix n.natAbs

def intStr (n : Int) : List Nat := baseI 10 n

/-- `Int.base`; there is no text where it fails. -/
def intBase (n base : Int) : Option (List Nat) :=
  if 2 ≤ base ∧ base ≤ 36 then some (baseI base.toNat n) else none

def Reader.unbase (reader : Reader fmt N) (base : Int) (str : List Nat) :
    Except TextError (Number N) :=
  let first := substr str 0 2
  if base ≤ 10 ∧ first ∈ [codes "0x", codes "0d", codes "0o", codes "0b"] ∨
      base ≤ 24 ∧ first ∈ [codes "0o", codes "0x"] ∨ base ≤ 33 ∧ first = codes "0x" then
    reader.numeric str
  else reader.numeric (codes ":" ++ intStr base ++ codes "<" ++ str ++ codes ">")

end RakudoStar.Numeric
