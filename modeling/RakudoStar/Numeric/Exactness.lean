import RakudoStar.Numeric.Rational
import Mathlib.Tactic.FieldSimp

/-!
# Exact arithmetic on rational numbers

Operands in lowest terms are rational numbers; the operators return the exact result in lowest
terms, but for powers left to floating point numbers.
-/

namespace RakudoStar.Numeric

open Bigint RakudoStar.Except Int

/-- A numerator and a denominator in lowest terms, the denominator positive. -/
structure Rational.Canonical (r : Rational) : Prop where
  positive : 0 < r.denominator
  coprime : r.numerator.natAbs.Coprime r.denominator.natAbs

/-- The rational number that a numerator and a denominator stand for. -/
def Rational.toRat (r : Rational) : ℚ := r.numerator / r.denominator

/-- A rational number in lowest terms. -/
def Rational.ofRat (q : ℚ) : Rational := ⟨q.num, q.den⟩

theorem Rational.toRat_ofRat (q : ℚ) : (Rational.ofRat q).toRat = q :=
  Rat.num_div_den q

theorem Rational.ofRat_div {numerator denominator : Int} (positive : 0 < denominator)
    (coprime : numerator.natAbs.Coprime denominator.natAbs) :
    Rational.ofRat (numerator / denominator) = ⟨numerator, denominator⟩ := by
  rw [Rational.ofRat, Rat.num_div_eq_of_coprime positive coprime,
    Rat.den_div_eq_of_coprime positive coprime]

variable {r : Rational}

section

variable (canonical : r.Canonical)

include canonical

theorem Rational.Canonical.denominator_ne_zero : (r.denominator : ℚ) ≠ 0 :=
  cast_ne_zero.mpr canonical.positive.ne'

theorem Rational.Canonical.ofRat_toRat : Rational.ofRat r.toRat = r :=
  Rational.ofRat_div canonical.positive canonical.coprime

theorem Rational.Canonical.toRat_eq_intCast_iff {i : Int} :
    r.toRat = i ↔ r.numerator = i ∧ r.denominator = 1 := by
  constructor
  · intro whole
    have same := canonical.ofRat_toRat
    rw [whole] at same
    rw [← same]
    exact ⟨Rat.num_intCast i, congrArg _ (Rat.den_intCast i)⟩
  · rintro ⟨numerator, denominator⟩
    rw [Rational.toRat, numerator, denominator, cast_one, div_one]

theorem Rational.Canonical.toRat_eq_zero_iff : r.toRat = 0 ↔ r.numerator = 0 := by
  rw [Rational.toRat, div_eq_zero_iff, cast_eq_zero, or_iff_left canonical.denominator_ne_zero]

end

/-- Operands in lowest terms. -/
def Operand.Canonical : Operand → Prop
  | .int _ => True
  | .rational _ r => r.Canonical

def Operand.toRat : Operand → ℚ
  | .int i => i
  | .rational _ r => r.toRat

theorem div_mul_self {factor divisor : Int} (nonzero : divisor ≠ 0) :
    div (factor * divisor) divisor = .ok factor := by
  rw [div, if_neg nonzero, mul_tdiv_cancel _ nonzero]

/-- Two integers that are divided by their greatest common divisor. -/
structure DividesOut (a b quotientA quotientB divisor : Int) : Prop where
  divisor_pos : 0 < divisor
  gcd_eq : gcd a b = divisor
  left : a = quotientA * divisor
  right : b = quotientB * divisor
  coprime : quotientA.natAbs.Coprime quotientB.natAbs

theorem exists_dividesOut {a b : Int} (nonzero : b ≠ 0) :
    ∃ quotientA quotientB divisor, DividesOut a b quotientA quotientB divisor := by
  have divisorPos : 0 < Int.gcd a b := gcd_pos_of_ne_zero_right a nonzero
  obtain ⟨quotientA, quotientB, coprime, left, right⟩ := exists_gcd_one divisorPos
  exact ⟨quotientA, quotientB, Int.gcd a b, natCast_pos.mpr divisorPos, rfl, left, right, coprime⟩

section

variable {a b quotientA quotientB divisor : Int}
  (dividesOut : DividesOut a b quotientA quotientB divisor)

include dividesOut

theorem DividesOut.div_left : div a (gcd a b) = .ok quotientA := by
  rw [dividesOut.gcd_eq, dividesOut.left, div_mul_self dividesOut.divisor_pos.ne']

theorem DividesOut.div_right : div b (gcd a b) = .ok quotientB := by
  rw [dividesOut.gcd_eq, dividesOut.right, div_mul_self dividesOut.divisor_pos.ne']

theorem DividesOut.quotientB_ne_zero (nonzero : b ≠ 0) : quotientB ≠ 0 := by
  rintro rfl
  exact nonzero (dividesOut.right.trans (Int.zero_mul _))

theorem DividesOut.div_eq : (a / b : ℚ) = quotientA / quotientB := by
  rw [dividesOut.left, dividesOut.right, cast_mul, cast_mul]
  exact mul_div_mul_right _ _ (cast_ne_zero.mpr dividesOut.divisor_pos.ne')

end

theorem reduce_eq {nu de : Int} (nonzero : de ≠ 0) : reduce nu de = .ok (.ofRat (nu / de)) := by
  obtain ⟨numerator, denominator, divisor, dividesOut⟩ := @exists_dividesOut nu de nonzero
  rw [reduce, dividesOut.div_left, dividesOut.div_right, dividesOut.div_eq]
  change (if denominator < 0 then _ else _) = _
  rcases lt_or_gt_of_ne (dividesOut.quotientB_ne_zero nonzero) with negative | positive
  · rw [if_pos negative, ← Rational.ofRat_div (neg_pos_of_neg negative)
      (by rw [natAbs_neg, natAbs_neg]; exact dividesOut.coprime),
      cast_neg, cast_neg, neg_div_neg_eq]
  · rw [if_neg (not_lt.mpr positive.le), Rational.ofRat_div positive dividesOut.coprime]

/-- A fraction in lowest terms; a float where only a `FatRat` would hold it. -/
def exactFraction (a b : Operand) (q : ℚ) : Value :=
  if a.isFatRat ∨ b.isFatRat then .exact (.rational .fatRat (.ofRat q))
  else if q.den < 2 ^ 64 then .exact (.rational .rat (.ofRat q))
  else .num (.quotient q.num q.den)

theorem resultOf_ofRat (a b : Operand) (q : ℚ) : resultOf a b (.ofRat q) = exactFraction a b q := by
  have same : (Rational.ofRat q).denominator < uint64Upper ↔ q.den < 2 ^ 64 :=
    ofNat_lt (n := q.den) (m := 2 ^ 64)
  simp only [resultOf, exactFraction, same]
  rfl

theorem divideInts_eq {nu de : Int} (a b : Operand) (nonzero : de ≠ 0) :
    divideInts nu de a b = .ok (exactFraction a b (nu / de)) := by
  change (reduce nu de >>= _) = _
  rw [reduce_eq nonzero, ok_bind, resultOf_ofRat]

/-- An integer where both operands are integers and the result is whole, otherwise a
fraction. -/
def exactNumber (a b : Operand) (q : ℚ) : Value :=
  match a, b with
  | .int _, .int _ => if q.den = 1 then .exact (.int q.num) else exactFraction a b q
  | _, _ => exactFraction a b q

theorem exactNumber_intCast (a b i : Int) :
    exactNumber (.int a) (.int b) (i : ℚ) = .exact (.int i) := by
  rw [exactNumber, Rat.den_intCast, Rat.num_intCast]
  rfl

theorem exactNumber_rational_left (type : RationalType) (r : Rational) (b : Operand) (q : ℚ) :
    exactNumber (.rational type r) b q = exactFraction (.rational type r) b q := by
  cases b <;> rfl

theorem exactNumber_rational_right (a : Operand) (type : RationalType) (r : Rational) (q : ℚ) :
    exactNumber a (.rational type r) q = exactFraction a (.rational type r) q := by
  cases a <;> rfl

theorem Rational.toRat_extended {a b : Rational} {scaleA scaleB divisor : Int}
    (dividesOut : DividesOut a.denominator b.denominator scaleB scaleA divisor)
    (nonzeroA : a.denominator ≠ 0) (nonzeroB : b.denominator ≠ 0) :
    a.toRat = a.numerator * scaleA / (scaleB * b.denominator : Int) ∧
      b.toRat = b.numerator * scaleB / (scaleB * b.denominator : Int) ∧
      scaleB * b.denominator ≠ 0 := by
  have scaleBNonzero : scaleB ≠ 0 := by
    rintro rfl
    exact nonzeroA (dividesOut.left.trans (Int.zero_mul _))
  have scaleANonzero := dividesOut.quotientB_ne_zero nonzeroB
  have common : scaleB * b.denominator = a.denominator * scaleA := by
    conv_lhs => rw [dividesOut.right]
    conv_rhs => rw [dividesOut.left]
    ring
  refine ⟨?_, ?_, mul_ne_zero scaleBNonzero nonzeroB⟩
  · rw [common, cast_mul, mul_div_mul_right _ _ (cast_ne_zero.mpr scaleANonzero)]
    rfl
  · rw [cast_mul, mul_comm (scaleB : ℚ), mul_div_mul_right _ _ (cast_ne_zero.mpr scaleBNonzero)]
    rfl

/-- A difference is a sum with the negated operand. -/
def Operand.neg : Operand → Operand
  | .int i => .int (-i)
  | .rational type r => .rational type ⟨-r.numerator, r.denominator⟩

variable {a b : Operand}

theorem Operand.toRat_neg : b.neg.toRat = -b.toRat := by
  cases b with
  | int i => exact cast_neg i
  | rational type r => exact (congrArg (· / _) (cast_neg _)).trans (neg_div ..)

theorem Operand.Canonical.neg (canonical : b.Canonical) : b.neg.Canonical := by
  cases b with
  | int i => trivial
  | rational type r => exact ⟨canonical.positive, (natAbs_neg _).symm ▸ canonical.coprime⟩

section

variable (canonicalA : a.Canonical) (canonicalB : b.Canonical)

include canonicalA canonicalB

theorem infixPlus_eq : infixPlus a b = .ok (exactNumber a b (a.toRat + b.toRat)) := by
  cases a with
  | int a =>
    cases b with
    | int b =>
      rw [Operand.toRat, Operand.toRat, ← cast_add, exactNumber_intCast]
      rfl
    | rational u b =>
      rw [infixPlus, divideInts_eq _ _ canonicalB.positive.ne', exactNumber_rational_right]
      have nonzero := canonicalB.denominator_ne_zero
      congr 2
      push_cast
      rw [Operand.toRat, Operand.toRat, Rational.toRat]
      field_simp
  | rational t a =>
    have nonzeroA := canonicalA.denominator_ne_zero
    rw [exactNumber_rational_left]
    cases b with
    | int b =>
      rw [infixPlus, divideInts_eq _ _ canonicalA.positive.ne']
      congr 2
      push_cast
      rw [Operand.toRat, Operand.toRat, Rational.toRat]
      field_simp
    | rational u b =>
      obtain ⟨scaleB, scaleA, divisor, dividesOut⟩ :=
        @exists_dividesOut a.denominator b.denominator canonicalB.positive.ne'
      obtain ⟨left, right, nonzero⟩ := Rational.toRat_extended dividesOut
        canonicalA.positive.ne' canonicalB.positive.ne'
      simp only [infixPlus, dividesOut.div_left, dividesOut.div_right, ok_bind]
      rw [divideInts_eq _ _ nonzero, Operand.toRat, Operand.toRat, left, right, ← add_div]
      push_cast
      rfl

theorem infixMinus_eq : infixMinus a b = .ok (exactNumber a b (a.toRat - b.toRat)) := by
  have minus : infixMinus a b = infixPlus a b.neg := by
    cases a <;> rcases b with i | ⟨_ | _, r⟩ <;>
      simp only [infixMinus, infixPlus, Operand.neg, Int.sub_eq_add_neg, Int.neg_mul] <;> rfl
  have same (q : ℚ) : exactNumber a b.neg q = exactNumber a b q := by
    cases a <;> rcases b with i | ⟨_ | _, r⟩ <;> rfl
  rw [minus, infixPlus_eq canonicalA canonicalB.neg, same, Operand.toRat_neg, ← sub_eq_add_neg]

theorem infixTimes_eq : infixTimes a b = .ok (exactNumber a b (a.toRat * b.toRat)) := by
  cases a with
  | int a =>
    cases b with
    | int b =>
      rw [Operand.toRat, Operand.toRat, ← cast_mul, exactNumber_intCast]
      rfl
    | rational u b =>
      rw [infixTimes, divideInts_eq _ _ canonicalB.positive.ne', exactNumber_rational_right,
        cast_mul, mul_div_assoc]
      rfl
  | rational t a =>
    rw [exactNumber_rational_left]
    cases b with
    | int b =>
      rw [infixTimes, divideInts_eq _ _ canonicalA.positive.ne', cast_mul, mul_div_right_comm]
      rfl
    | rational u b =>
      have nonzero := mul_ne_zero canonicalA.positive.ne' canonicalB.positive.ne'
      rw [infixTimes, divideInts_eq _ _ nonzero, cast_mul, cast_mul, ← div_mul_div_comm]
      rfl

theorem infixDivide_eq (divisor : b.toRat ≠ 0) :
    infixDivide a b = .ok (exactFraction a b (a.toRat / b.toRat)) := by
  cases b with
  | int b =>
    have nonzero : b ≠ 0 := cast_ne_zero.mp divisor
    cases a with
    | int a => exact divideInts_eq _ _ nonzero
    | rational t a =>
      rw [infixDivide, divideInts_eq _ _ (mul_ne_zero canonicalA.positive.ne' nonzero),
        cast_mul, ← div_div]
      rfl
  | rational u b =>
    have nonzero : b.numerator ≠ 0 := by
      intro zero
      rw [Operand.toRat, Rational.toRat, zero, cast_zero, zero_div] at divisor
      exact divisor rfl
    cases a with
    | int a =>
      rw [infixDivide, divideInts_eq _ _ nonzero, cast_mul, mul_comm, ← div_div_eq_mul_div]
      rfl
    | rational t a =>
      rw [infixDivide, divideInts_eq _ _ (mul_ne_zero canonicalA.positive.ne' nonzero),
        cast_mul, cast_mul, ← div_div_div_eq]
      rfl

end

section

variable {fmt : DigitFormat} (multiplier : Multiplier fmt) {a b : Int}

/-- The exponents for which `nqp_bigint_pow` returns an integer. -/
def HeldPower (fmt : DigitFormat) (a b : Int) : Prop :=
  a = 1 ∨ 0 ≤ b ∧ (b < exponentLimit fmt ∨ a = 0)

theorem intPow_of_held (held : HeldPower fmt a b) :
    intPow multiplier a b = .ok (.exact (.int (a ^ b.toNat))) := by
  have base : (P6bigint.ofInt fmt a).toInt = a := P6bigint.toInt_ofInt a
  have exponent : (P6bigint.ofInt fmt b).toInt = b := P6bigint.toInt_ofInt b
  rw [intPow]
  by_cases easy : b = 0 ∨ a = 1
  · obtain ⟨one, ran, means⟩ := nqpBigintPow_of_trivial multiplier
      (easy.imp exponent.trans base.trans)
    have power : a ^ b.toNat = 1 := by
      rcases easy with rfl | rfl
      · exact pow_zero a
      · exact one_pow _
    rw [ran, power]
    dsimp only
    rw [means]
  obtain ⟨nonzero, notOne⟩ := not_or.mp easy
  obtain ⟨nonnegative, small⟩ := held.resolve_left notOne
  have positive : 0 < b := lt_of_le_of_ne nonnegative (Ne.symm nonzero)
  rw [nqpBigintPow_of_pos multiplier (by rw [exponent]; exact positive)
    (by rw [base]; exact notOne), base, exponent]
  by_cases large : exponentLimit fmt ≤ b.toNat
  · have zero : a = 0 := small.resolve_left fun less =>
      absurd (toNat_of_nonneg nonnegative ▸ less) (ofNat_le.mpr large).not_gt
    rw [if_pos large, if_pos zero]
    dsimp only
    rw [toInt_mpCopy, ← P6bigint.toInt, base, zero, zero_pow]
    intro none
    exact absurd positive (toNat_eq_zero.mp none).not_gt
  rw [if_neg large]
  dsimp only
  rw [toInt_mpExptD_mpGetInt multiplier (by rw [exponent]; exact nonnegative)
    (by rw [exponent]; exact not_le.mp large), base, exponent]

theorem intPow_of_not_held (notHeld : ¬ HeldPower fmt a b) : intPow multiplier a b = .ok (.num
      (if b < 0 then .power a b else .infinity (if 0 < a then .zpos else .neg))) := by
  have base : (P6bigint.ofInt fmt a).toInt = a := P6bigint.toInt_ofInt a
  have exponent : (P6bigint.ofInt fmt b).toInt = b := P6bigint.toInt_ofInt b
  obtain ⟨notOne, large⟩ := not_or.mp notHeld
  rw [intPow]
  by_cases negative : b < 0
  · rw [nqpBigintPow_of_neg multiplier (by rw [exponent]; exact negative)
      (by rw [base]; exact notOne), if_pos negative]
    dsimp only
    rw [← P6bigint.toInt, ← P6bigint.toInt, base, exponent]
  have nonnegative : 0 ≤ b := not_lt.mp negative
  obtain ⟨atLeast, nonzero⟩ := not_or.mp fun small => large ⟨nonnegative, small⟩
  have limit : exponentLimit fmt ≤ b.toNat := le_toNat nonnegative |>.mpr (not_lt.mp atLeast)
  have limitPos : 0 < exponentLimit fmt := Nat.lt_min.mpr ⟨fmt.base_pos, Nat.two_pow_pos 32⟩
  have positive : 0 < b := lt_toNat.mp (limitPos.trans_le limit)
  rw [nqpBigintPow_of_pos multiplier (by rw [exponent]; exact positive)
    (by rw [base]; exact notOne), base, exponent, if_pos limit, if_neg nonzero, if_neg negative]
  by_cases above : 0 < a
  · rw [if_pos above, if_pos above]
  · rw [if_neg above, if_neg above]

/-- The exact number, or a float where the denominator is too large for a `Rat`. -/
def IsPower (a : Operand) (b : Int) (value : Value) : Prop :=
  value = exactNumber a (.int b) (a.toRat ^ b) ∨
    ∃ i, a = .int i ∧ 2 ^ 64 ≤ (a.toRat ^ b).den ∧ value = .num (.power i b)

def PowerExact (fmt : DigitFormat) (a : Operand) (b : Int) : Prop :=
  a.toRat = 1 ∨ (0 ≤ b ∧ (b < exponentLimit fmt ∨ a.toRat = 0)) ∨
    ∃ i, a = .int i ∧ b < 0 ∧ 2 ^ 64 ≤ i.natAbs ^ b.natAbs

/-- Both parts of a rational number are raised to a power that is an integer. -/
theorem heldPower_parts_iff (canonical : r.Canonical) (b : Int) :
    (HeldPower fmt r.numerator b ∧ HeldPower fmt r.denominator b) ↔
      r.toRat = 1 ∨ 0 ≤ b ∧ (b < exponentLimit fmt ∨ r.toRat = 0) := by
  have nonzero := canonical.positive.ne'
  rw [canonical.toRat_eq_zero_iff, ← cast_one, canonical.toRat_eq_intCast_iff]
  constructor
  · rintro ⟨one | ⟨nonnegative, small | zero⟩, oneDen | ⟨_, smallDen | zeroDen⟩⟩
    · exact .inl ⟨one, oneDen⟩
    · exact .inr ⟨‹_›, .inl smallDen⟩
    · exact absurd zeroDen nonzero
    · exact .inr ⟨nonnegative, .inl small⟩
    · exact .inr ⟨nonnegative, .inl small⟩
    · exact absurd zeroDen nonzero
    · exact .inr ⟨nonnegative, .inr zero⟩
    · exact .inr ⟨nonnegative, .inl smallDen⟩
    · exact absurd zeroDen nonzero
  rintro (⟨one, oneDen⟩ | ⟨nonnegative, small | zero⟩)
  · exact ⟨.inl one, .inl oneDen⟩
  · exact ⟨.inr ⟨nonnegative, .inl small⟩, .inr ⟨nonnegative, .inl small⟩⟩
  have oneDen : r.denominator = 1 := by
    have coprime := canonical.coprime
    rw [zero, natAbs_zero, Nat.coprime_zero_left] at coprime
    exact (natAbs_of_nonneg canonical.positive.le).symm.trans (congrArg _ coprime)
  exact ⟨.inr ⟨nonnegative, .inr zero⟩, .inl oneDen⟩

theorem Rational.toRat_zpow (held : r.toRat = 1 ∨ 0 ≤ b) :
    ((r.numerator ^ b.toNat : Int) / (r.denominator ^ b.toNat : Int) : ℚ) = r.toRat ^ b := by
  rw [cast_pow, cast_pow, ← div_pow]
  change r.toRat ^ b.toNat = _
  rcases held with one | nonnegative
  · rw [one, one_pow, one_zpow]
  · conv_rhs => rw [← toNat_of_nonneg nonnegative]
    exact (zpow_natCast _ _).symm

theorem infixPower_rational (canonical : r.Canonical) (type : RationalType)
    (b : Int) : (∃ value, infixPower multiplier (.rational type r) b = .ok value ∧
      IsPower (.rational type r) b value) ↔ PowerExact fmt (.rational type r) b := by
  have exact_iff : PowerExact fmt (.rational type r) b ↔
      HeldPower fmt r.numerator b ∧ HeldPower fmt r.denominator b := by
    rw [heldPower_parts_iff canonical, PowerExact]
    refine or_congr_right (or_iff_left ?_)
    rintro ⟨_, impossible, _⟩
    cases impossible
  rw [exact_iff]
  constructor
  · rintro ⟨value, ran, _⟩
    by_contra notBoth
    rw [infixPower] at ran
    by_cases nu : HeldPower fmt r.numerator b
    · rw [intPow_of_held multiplier nu, ok_bind,
        intPow_of_not_held multiplier fun de => notBoth ⟨nu, de⟩, ok_bind] at ran
      cases ran
    rw [intPow_of_not_held multiplier nu, ok_bind] at ran
    by_cases de : HeldPower fmt r.denominator b
    · rw [intPow_of_held multiplier de] at ran
      cases ran
    · rw [intPow_of_not_held multiplier de] at ran
      cases ran
  rintro ⟨nu, de⟩
  have nonzero : r.denominator ^ b.toNat ≠ 0 := pow_ne_zero _ canonical.positive.ne'
  have held : r.toRat = 1 ∨ 0 ≤ b :=
    ((heldPower_parts_iff canonical b).mp ⟨nu, de⟩).imp_right And.left
  refine ⟨_, ?_, .inl rfl⟩
  rw [infixPower, intPow_of_held multiplier nu, ok_bind, intPow_of_held multiplier de, ok_bind,
    exactNumber_rational_left, Operand.toRat, ← Rational.toRat_zpow held]
  exact divideInts_eq _ _ nonzero

theorem exactNumber_eq_num {a b : Operand} {q : ℚ} {n : Num}
    (isNum : exactNumber a b q = .num n) : n = .quotient q.num q.den := by
  have fraction : ∀ a b : Operand, exactFraction a b q = .num n → n = .quotient q.num q.den := by
    intro a b same
    rw [exactFraction] at same
    split_ifs at same
    cases same
    rfl
  unfold exactNumber at isNum
  split at isNum
  · split_ifs at isNum
    exact fraction _ _ isNum
  · exact fraction _ _ isNum

theorem den_zpow_of_neg (nonzero : a ≠ 0) (negative : b < 0) :
    ((a : ℚ) ^ b).den = a.natAbs ^ b.natAbs := by
  have inverse : (a : ℚ) ^ b = ((a ^ b.natAbs : Int) : ℚ)⁻¹ := by
    rw [cast_pow, ← zpow_natCast, ← zpow_neg, ofNat_natAbs_of_nonpos negative.le, neg_neg]
  rw [inverse, Rat.inv_intCast_den, if_neg (pow_ne_zero _ nonzero), natAbs_pow]

theorem infixPower_int (a b : Int) (nonzero : 0 ≤ b ∨ a ≠ 0) :
    (∃ value, infixPower multiplier (.int a) b = .ok value ∧ IsPower (.int a) b value) ↔
      PowerExact fmt (.int a) b := by
  have exact_iff : PowerExact fmt (.int a) b ↔
      HeldPower fmt a b ∨ b < 0 ∧ 2 ^ 64 ≤ a.natAbs ^ b.natAbs := by
    rw [PowerExact, HeldPower, Operand.toRat, cast_eq_one, cast_eq_zero, or_assoc]
    refine or_congr_right (or_congr_right ⟨?_, fun large => ⟨a, rfl, large⟩⟩)
    rintro ⟨_, same, large⟩
    cases same
    exact large
  rw [exact_iff, infixPower]
  by_cases held : HeldPower fmt a b
  · have power : ((a ^ b.toNat : Int) : ℚ) = (a : ℚ) ^ b := by
      rw [cast_pow]
      rcases held with rfl | ⟨nonnegative, _⟩
      · rw [cast_one, one_pow, one_zpow]
      · conv_rhs => rw [← toNat_of_nonneg nonnegative]
        exact (zpow_natCast _ _).symm
    refine iff_of_true ⟨_, intPow_of_held multiplier held, .inl ?_⟩ (.inl held)
    rw [Operand.toRat, ← power, exactNumber_intCast]
  rw [intPow_of_not_held multiplier held, or_iff_right held]
  constructor
  · rintro ⟨value, ran, exactly | ⟨i, same, large, power⟩⟩
    · rw [← Except.ok.inj ran] at exactly
      have quotient := exactNumber_eq_num exactly.symm
      split_ifs at quotient
    cases same
    rw [← Except.ok.inj ran] at power
    by_cases negative : b < 0
    · rw [Operand.toRat, den_zpow_of_neg (nonzero.resolve_left negative.not_ge) negative] at large
      exact ⟨negative, large⟩
    · rw [if_neg negative] at power
      cases power
  rintro ⟨negative, large⟩
  refine ⟨_, rfl, .inr ⟨a, rfl, ?_, ?_⟩⟩
  · rw [Operand.toRat, den_zpow_of_neg (nonzero.resolve_left negative.not_ge) negative]
    exact large
  · rw [if_pos negative]

end

section

variable (canonicalA : a.Canonical) (canonicalB : b.Canonical)

include canonicalA canonicalB

theorem exists_sides_eq : ∃ factor : ℚ, 0 < factor ∧ (sides a b).1 = a.toRat * factor ∧
      (sides a b).2 = b.toRat * factor := by
  have cancel : ∀ {r : Rational}, r.Canonical → r.toRat * r.denominator = r.numerator :=
    fun canonical => div_mul_cancel₀ _ canonical.denominator_ne_zero
  have positive : ∀ {r : Rational}, r.Canonical → (0 : ℚ) < r.denominator :=
    fun canonical => cast_pos.mpr canonical.positive
  cases a with
  | int a =>
    cases b with
    | int b => exact ⟨1, one_pos, (mul_one _).symm, (mul_one _).symm⟩
    | rational u b =>
      exact ⟨b.denominator, positive canonicalB, cast_mul _ _, (cancel canonicalB).symm⟩
  | rational t a =>
    cases b with
    | int b =>
      exact ⟨a.denominator, positive canonicalA, (cancel canonicalA).symm, cast_mul _ _⟩
    | rational u b =>
      refine ⟨a.denominator * b.denominator,
        mul_pos (positive canonicalA) (positive canonicalB), ?_, ?_⟩
      · rw [Operand.toRat, ← mul_assoc, cancel canonicalA]
        exact cast_mul _ _
      · rw [Operand.toRat, mul_comm (a.denominator : ℚ), ← mul_assoc, cancel canonicalB]
        exact cast_mul _ _

theorem sides_lt_iff : (sides a b).1 < (sides a b).2 ↔ a.toRat < b.toRat := by
  obtain ⟨factor, positive, left, right⟩ := exists_sides_eq canonicalA canonicalB
  rw [← @Int.cast_lt ℚ, left, right, mul_lt_mul_iff_left₀ positive]

theorem sides_eq_iff : (sides a b).1 = (sides a b).2 ↔ a.toRat = b.toRat := by
  obtain ⟨factor, positive, left, right⟩ := exists_sides_eq canonicalA canonicalB
  rw [← @Int.cast_inj ℚ, left, right, mul_left_inj' positive.ne']

theorem sides_gt_iff : (sides a b).2 < (sides a b).1 ↔ b.toRat < a.toRat := by
  obtain ⟨factor, positive, left, right⟩ := exists_sides_eq canonicalA canonicalB
  rw [← @Int.cast_lt ℚ, left, right, mul_lt_mul_iff_left₀ positive]

theorem infixCompare_eq : infixCompare a b = compare a.toRat b.toRat := by
  rw [infixCompare]
  rcases lt_trichotomy a.toRat b.toRat with less | same | greater
  · rw [compare_lt_iff_lt.mpr less, compare_lt_iff_lt]
    exact (sides_lt_iff canonicalA canonicalB).mpr less
  · rw [compare_eq_iff_eq.mpr same, compare_eq_iff_eq]
    exact (sides_eq_iff canonicalA canonicalB).mpr same
  · rw [compare_gt_iff_gt.mpr greater, compare_gt_iff_gt]
    exact (sides_gt_iff canonicalA canonicalB).mpr greater

theorem infixLessEqual_eq : infixLessEqual a b = decide (a.toRat ≤ b.toRat) := by
  rw [infixLessEqual, decide_eq_decide, ← not_lt, ← not_lt]
  exact (sides_gt_iff canonicalA canonicalB).not

theorem infixGreaterEqual_eq : infixGreaterEqual a b = decide (b.toRat ≤ a.toRat) := by
  rw [infixGreaterEqual, decide_eq_decide, ge_iff_le, ← not_lt, ← not_lt]
  exact (sides_lt_iff canonicalA canonicalB).not

theorem infixEqual_eq : infixEqual a b = decide (a.toRat = b.toRat) := by
  rw [Bool.eq_iff_iff, decide_eq_true_iff]
  cases a with
  | int a =>
    cases b with
    | int b => exact beq_iff_eq.trans cast_inj.symm
    | rational u b =>
      rw [infixEqual, Bool.and_eq_true, beq_iff_eq, beq_iff_eq, @eq_comm _ a,
        ← canonicalB.toRat_eq_intCast_iff]
      exact eq_comm
  | rational t a =>
    cases b with
    | int b =>
      rw [infixEqual, Bool.and_eq_true, beq_iff_eq, beq_iff_eq, ← canonicalA.toRat_eq_intCast_iff]
      exact Iff.rfl
    | rational u b =>
      have sameA := canonicalA.ofRat_toRat
      have sameB := canonicalB.ofRat_toRat
      rw [infixEqual, Bool.and_eq_true, beq_iff_eq, beq_iff_eq]
      constructor
      · rintro ⟨numerator, denominator⟩
        rw [Operand.toRat, Operand.toRat, Rational.toRat, Rational.toRat, numerator, denominator]
      intro same
      have fields : a = b := sameA.symm.trans ((congrArg Rational.ofRat same).trans sameB)
      rw [fields]
      exact ⟨rfl, rfl⟩

end

/-- The operators are exact on operands in lowest terms, and the comparisons agree with the
order of the rational numbers; powers are exact exactly when they are raised to an exponent
that `nqp_bigint_pow` takes for both parts. -/
theorem rational_operators_exact {fmt : DigitFormat} (multiplier : Multiplier fmt) {a b : Operand}
    (canonicalA : a.Canonical) (canonicalB : b.Canonical) :
    infixPlus a b = .ok (exactNumber a b (a.toRat + b.toRat)) ∧
    infixMinus a b = .ok (exactNumber a b (a.toRat - b.toRat)) ∧
    infixTimes a b = .ok (exactNumber a b (a.toRat * b.toRat)) ∧
    (b.toRat ≠ 0 → infixDivide a b = .ok (exactFraction a b (a.toRat / b.toRat))) ∧
    (∀ exponent : Int, 0 ≤ exponent ∨ a.toRat ≠ 0 →
      ((∃ value, infixPower multiplier a exponent = .ok value ∧ IsPower a exponent value) ↔
        PowerExact fmt a exponent)) ∧ infixEqual a b = decide (a.toRat = b.toRat) ∧
    infixLess a b = decide (a.toRat < b.toRat) ∧ infixLessEqual a b = decide (a.toRat ≤ b.toRat) ∧
    infixGreater a b = decide (b.toRat < a.toRat) ∧
    infixGreaterEqual a b = decide (b.toRat ≤ a.toRat) ∧
    infixCompare a b = compare a.toRat b.toRat := by
  refine ⟨infixPlus_eq canonicalA canonicalB, infixMinus_eq canonicalA canonicalB,
    infixTimes_eq canonicalA canonicalB, infixDivide_eq canonicalA canonicalB, ?_,
    infixEqual_eq canonicalA canonicalB, decide_eq_decide.mpr (sides_lt_iff canonicalA canonicalB),
    infixLessEqual_eq canonicalA canonicalB,
    decide_eq_decide.mpr (sides_gt_iff canonicalA canonicalB),
    infixGreaterEqual_eq canonicalA canonicalB, infixCompare_eq canonicalA canonicalB⟩
  intro exponent nonzero
  cases a with
  | int a => exact infixPower_int multiplier a exponent (nonzero.imp_right cast_ne_zero.mp)
  | rational type r => exact infixPower_rational multiplier canonicalA type exponent

/-- The operators on one half and two thirds. -/
theorem rational_operators_exact_half :
    infixPlus (.rational .rat ⟨1, 2⟩) (.rational .fatRat ⟨2, 3⟩) =
        .ok (.exact (.rational .fatRat ⟨7, 6⟩)) ∧
      infixLess (.rational .rat ⟨1, 2⟩) (.rational .fatRat ⟨2, 3⟩) = true := by
  obtain ⟨sum, _, _, _, _, _, less, _⟩ :=
    @rational_operators_exact _ (exactMultiplier .mp64Bit) (.rational .rat ⟨1, 2⟩)
      (.rational .fatRat ⟨2, 3⟩) ⟨by decide, by decide⟩ ⟨by decide, by decide⟩
  have half : Operand.toRat (.rational .rat ⟨1, 2⟩) = 1 / 2 := rfl
  have twoThirds : Operand.toRat (.rational .fatRat ⟨2, 3⟩) = 2 / 3 := rfl
  have seventh : Rational.ofRat (1 / 2 + 2 / 3) = ⟨7, 6⟩ := by
    have same : (1 / 2 + 2 / 3 : ℚ) = (7 : Int) / (6 : Int) := by norm_num
    rw [same, Rational.ofRat_div (by decide) (by decide)]
  rw [half, twoThirds] at sum less
  refine ⟨sum.trans ?_, less.trans (decide_eq_true (by norm_num))⟩
  rw [exactNumber_rational_left, exactFraction, seventh]
  rfl

/-- `(1/2) ** -1` ends in the check of a parameter. -/
theorem half_power_minusOne : ¬ ∃ value,
      infixPower (exactMultiplier .mp64Bit) (.rational .rat ⟨1, 2⟩) (-1) = .ok value ∧
      IsPower (.rational .rat ⟨1, 2⟩) (-1) value := by
  have canonical : Rational.Canonical ⟨1, 2⟩ := ⟨by decide, by decide⟩
  rw [infixPower_rational (exactMultiplier .mp64Bit) canonical]
  rintro (one | ⟨impossible, _⟩ | ⟨_, impossible, _⟩)
  · have parts := (canonical.toRat_eq_intCast_iff).mp (one.trans cast_one.symm)
    exact absurd parts.2 (by decide)
  · exact absurd impossible (by decide)
  · cases impossible

end RakudoStar.Numeric
