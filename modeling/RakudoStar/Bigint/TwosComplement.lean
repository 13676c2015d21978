import RakudoStar.Bigint.Bitops
import Mathlib.Data.Int.Bitwise

/-!
# Bitwise operators on big integers

`nqp_bigint_band` to `nqp_bigint_shl`, and exactly when each is the operation on infinite two's
complement.
-/

namespace RakudoStar.Bigint

open Digits RakudoStar.Except Nat

variable {fmt : DigitFormat} {bitop : MpInt → MpInt → MpInt}
  {Exact : P6bigint fmt → P6bigint fmt → Prop} {bit : Bool → Bool → Bool}
  {target : Int → Int → Int} {op : Nat → Nat → Nat} {x y : P6bigint fmt} {divisor count k : Nat}
  (a : Int)

/-- The value of an `INTVAL` passed for an `int`. -/
def toInt32 (value : Int) : Int :=
  value.bmod (2 ^ 32)

def nqpBigintShr (a : P6bigint fmt) (count : Int) : Except Fault MpInt :=
  .ok (mpDiv2d fmt a.i (toInt32 count) (mpZero mpInit))

def nqpBigintShl (a : P6bigint fmt) (count : Int) : Except Fault MpInt :=
  mpMul2d fmt a.i (toInt32 count) (mpZero mpInit)

def nqpBigintBand (a b : P6bigint fmt) : Except Fault MpInt :=
  twoComplementBitop fmt a.i b.i mpAnd

def nqpBigintBor (a b : P6bigint fmt) : Except Fault MpInt :=
  twoComplementBitop fmt a.i b.i mpOr

def nqpBigintBxor (a b : P6bigint fmt) : Except Fault MpInt :=
  twoComplementBitop fmt a.i b.i mpXor

def nqpBigintBnot (a : P6bigint fmt) : Except Fault MpInt :=
  -- 2s complement: add 1, negate
  .ok (mpNeg (mpAddD fmt a.i 1 (mpZero mpInit)))

/-- What is allocated for the negative operand covers the digits of the other one. -/
def Covers (negative other : P6bigint fmt) : Prop :=
  other.i.used ≤ negative.i.alloc

def topWeight (a b : P6bigint fmt) : Nat :=
  2 ^ (fmt.digitBit * max a.i.used b.i.used - 1)

/-- The operands have a bit in common, the highest not on top of a digit. -/
def AndExact (negative other : P6bigint fmt) : Prop :=
  ∃ h, IsGreatest {i | negative.toInt.testBit i ∧ other.toInt.testBit i} h ∧ ¬ fmt.digitBit ∣ h + 1

/-- In the digits of the wider operand, one of the two has its top bit set. -/
def OrExact (negative other : P6bigint fmt) : Prop :=
  -negative.toInt ≤ topWeight negative other ∨ topWeight negative other ≤ other.toInt

/-- In the digits of the wider operand, exactly one of the two has its top bit set. -/
def XorExact (negative other : P6bigint fmt) : Prop :=
  -negative.toInt ≤ topWeight negative other ↔ other.toInt < topWeight negative other

/-- Operands of one sign, equal if negative, or of two signs under the condition. -/
def ByOperands (Exact : P6bigint fmt → P6bigint fmt → Prop) (a b : P6bigint fmt) : Prop :=
  (0 ≤ a.toInt ∧ 0 ≤ b.toInt) ∨ (a.toInt < 0 ∧ b.toInt < 0 ∧ a.toInt = b.toInt) ∨
    (a.toInt < 0 ∧ 0 ≤ b.toInt ∧ Covers a b ∧ Exact a b) ∨
    (0 ≤ a.toInt ∧ b.toInt < 0 ∧ Covers b a ∧ Exact b a)

/-- The count is an `int`, and only zeros leave a negative number; or it makes no difference. -/
def ShrExact (a : P6bigint fmt) (count : Nat) : Prop :=
  if count < 2 ^ 31 then 0 ≤ a.toInt ∨ ((2 ^ count : Nat) : Int) ∣ a.toInt
  else if toInt32 count ≤ 0 then a.toInt = 0 ∨ a.toInt = -1
  else
    (0 ≤ a.toInt ∧ a.toInt < (2 ^ (toInt32 count).toNat : Nat)) ∨
      (-((2 ^ ((toInt32 count).toNat + 1) : Nat) : Int) < a.toInt ∧
        a.toInt ≤ -((2 ^ (toInt32 count).toNat : Nat) : Int))

/-- The count is an `int`, or the number is zero and can be shifted anyway. -/
def ShlExact (a : P6bigint fmt) (count : Nat) : Prop :=
  count < 2 ^ 31 ∨ (a.toInt = 0 ∧ (0 ≤ toInt32 count ∨ (fmt.digitBit : Int) ∣ toInt32 count))

section

variable {j k : Nat}

theorem succ_and_succ_eq_iff : (j + 1) &&& (k + 1) = (j ||| k) + 1 ↔ j = k := by
  constructor
  · intro equal
    have belowLeft : (j + 1) &&& (k + 1) ≤ j + 1 := and_le_left
    have belowRight : (j + 1) &&& (k + 1) ≤ k + 1 := and_le_right
    have aboveLeft : j ≤ j ||| k := left_le_or
    have aboveRight : k ≤ j ||| k := right_le_or
    omega
  · rintro rfl
    rw [Nat.and_self, Nat.or_self]

theorem succ_or_succ_eq_iff : (j + 1) ||| (k + 1) = (j &&& k) + 1 ↔ j = k := by
  constructor
  · intro equal
    have belowLeft : j &&& k ≤ j := and_le_left
    have belowRight : j &&& k ≤ k := and_le_right
    have aboveLeft : j + 1 ≤ (j + 1) ||| (k + 1) := left_le_or
    have aboveRight : k + 1 ≤ (j + 1) ||| (k + 1) := right_le_or
    omega
  · rintro rfl
    rw [Nat.and_self, Nat.or_self]

theorem neg_succ_xor_succ_eq_iff :
    -(((j + 1) ^^^ (k + 1) : Nat) : Int) = ((j ^^^ k : Nat) : Int) ↔ j = k := by
  constructor
  · intro equal
    have none : j ^^^ k = 0 := by omega
    exact Nat.xor_eq_zero_iff.mp none
  rintro rfl
  rw [Nat.xor_self, Nat.xor_self]
  rfl

theorem testBit_top {value width : Nat} (positive : 0 < width) (fits : value < 2 ^ width) :
    value.testBit (width - 1) = true ↔ 2 ^ (width - 1) ≤ value := by
  constructor
  · exact ge_two_pow_of_testBit
  intro atLeast
  refine testBit_of_two_pow_le_and_two_pow_add_one_gt atLeast ?_
  rw [Nat.sub_add_cancel positive]
  exact fits

end

section

/-- What `grow_and_negate` and the operation leave of a negative `x` and another `y`. -/
structure Mixture (x y : P6bigint fmt) (op : Nat → Nat → Nat) (k n : Nat) (c : MpInt) : Prop where
  valid : c.Valid fmt
  zpos : c.sign = .zpos
  magnitude : c.magnitude fmt = op (2 ^ (fmt.digitBit * max x.i.used y.i.used) - (k + 1)) n

theorem base_pow (fmt : DigitFormat) (count : Nat) :
    fmt.base ^ count = 2 ^ (fmt.digitBit * count) :=
  (pow_mul 2 fmt.digitBit count).symm

theorem operands (x y : P6bigint fmt) (negative : x.i.sign = .neg) (zpos : y.i.sign = .zpos) :
    ∃ k n : Nat, x.toInt = Int.negSucc k ∧ x.i.magnitude fmt = k + 1 ∧ y.toInt = n ∧
      y.i.magnitude fmt = n ∧ k + 1 < 2 ^ (fmt.digitBit * max x.i.used y.i.used) ∧
      n < 2 ^ (fmt.digitBit * max x.i.used y.i.used) := by
  have positive := x.valid.magnitude_pos negative
  have xLt := x.valid.magnitude_lt
  have yLt := y.valid.magnitude_lt
  have monotone : ∀ {used : Nat}, used ≤ max x.i.used y.i.used →
      fmt.base ^ used ≤ 2 ^ (fmt.digitBit * max x.i.used y.i.used) := by
    intro used atMost
    rw [← base_pow]
    exact Nat.pow_le_pow_right fmt.base_pos atMost
  obtain ⟨k, succ⟩ : ∃ k, x.i.magnitude fmt = k + 1 :=
    ⟨x.i.magnitude fmt - 1, (Nat.sub_add_cancel positive).symm⟩
  refine ⟨k, y.i.magnitude fmt, ?_, succ, MpInt.toInt_zpos zpos, rfl, ?_, ?_⟩
  · rw [P6bigint.toInt, MpInt.toInt_neg negative, succ]
    rfl
  · rw [← succ]
    exact xLt.trans_le (monotone (Nat.le_max_left _ _))
  · exact yLt.trans_le (monotone (Nat.le_max_right _ _))

theorem twoComplementBitop_of_covers (computes : ComputesBitop fmt op bit bitop) {n : Nat}
    (negative : x.i.sign = .neg) (zpos : y.i.sign = .zpos)
    (magnitudeX : x.i.magnitude fmt = k + 1) (magnitudeY : y.i.magnitude fmt = n)
    (covers : Covers x y) : (∃ c d, Mixture x y op k n c ∧
        twoComplementBitop fmt x.i y.i bitop = restoreSign fmt c d) ∧ ∃ c d, Mixture x y op k n c ∧
        twoComplementBitop fmt y.i x.i bitop = restoreSign fmt c d := by
  have differ : x.i.sign ≠ y.i.sign := by
    rw [negative, zpos]
    decide
  have notNegative : y.i.sign ≠ .neg := by
    rw [zpos]
    decide
  obtain ⟨d, ran, valid, sign, magnitude⟩ := growAndNegate_spec (b := mpInit) x.valid covers
  have complement : d.magnitude fmt = 2 ^ (fmt.digitBit * max x.i.used y.i.used) - (k + 1) := by
    rw [magnitude, magnitudeX, base_pow, max_comm]
  unfold twoComplementBitop
  rw [if_pos differ, if_pos negative, if_pos differ.symm, if_neg notNegative, ran, ok_bind, ok_bind]
  constructor
  · refine ⟨bitop d y.i, d, ⟨computes.valid valid y.valid, ?_, ?_⟩, rfl⟩
    · exact (computes.sign valid y.valid sign zpos).elim id (computes.valid valid y.valid).zero_zpos
    · rw [computes.magnitude valid y.valid, complement, magnitudeY]
  refine ⟨bitop y.i d, d, ⟨computes.valid y.valid valid, ?_, ?_⟩, rfl⟩
  · exact (computes.sign y.valid valid zpos sign).elim id (computes.valid y.valid valid).zero_zpos
  · rw [computes.magnitude y.valid valid, complement, magnitudeY, computes.comm]

theorem twoComplementBitop_of_not_covers (bitop : MpInt → MpInt → MpInt)
    (negative : x.i.sign = .neg) (zpos : y.i.sign = .zpos) (short : ¬ Covers x y) :
    twoComplementBitop fmt x.i y.i bitop = .error .outsideDigits ∧
      twoComplementBitop fmt y.i x.i bitop = .error .outsideDigits := by
  have differ : x.i.sign ≠ y.i.sign := by
    rw [negative, zpos]
    decide
  have notNegative : y.i.sign ≠ .neg := by
    rw [zpos]
    decide
  have fails : growAndNegate fmt x.i y.i.used mpInit = .error .outsideDigits :=
    growAndNegate_eq_error (not_le.mp short)
  unfold twoComplementBitop
  rw [if_pos differ, if_pos negative, if_pos differ.symm, if_neg notNegative, fails,
    error_bind, error_bind]
  exact ⟨rfl, rfl⟩

variable {k n : Nat} {c d : MpInt}

/-- The result of a conjunction is not negative; exact if its top bit is not set. -/
theorem yields_conjunction_iff (mixture : Mixture x y (· &&& ·) k n c)
    (xEq : x.toInt = Int.negSucc k) (yEq : y.toInt = n)
    (kLt : k + 1 < 2 ^ (fmt.digitBit * max x.i.used y.i.used))
    (nLt : n < 2 ^ (fmt.digitBit * max x.i.used y.i.used)) :
    Yields fmt (restoreSign fmt c d) ((Nat.ldiff n k : Nat) : Int) ↔
      ∃ h, IsGreatest {i | x.toInt.testBit i ∧ y.toInt.testBit i} h ∧ ¬ fmt.digitBit ∣ h + 1 := by
  have magnitude : c.magnitude fmt = Nat.ldiff n k :=
    mixture.magnitude.trans (complement_and ((lt_succ_self k).trans kLt) nLt)
  have common : ∀ i, (x.toInt.testBit i = true ∧ y.toInt.testBit i = true) ↔
      (c.magnitude fmt).testBit i = true := by
    intro i
    rw [magnitude, testBit_ldiff, xEq, yEq]
    change ((!k.testBit i) = true ∧ n.testBit i = true) ↔ _
    rw [Bool.and_eq_true, and_comm]
  rw [yields_restoreSign_iff mixture.valid mixture.zpos, ← magnitude]
  have below := mixture.valid.magnitude_lt
  constructor
  · rintro ⟨nonzero, exact⟩
    have notSet : ¬ 2 ^ (fmt.digitBit * c.used - 1) ≤ c.magnitude fmt := by
      intro set
      rw [if_pos set] at exact
      omega
    have nonempty : c.digits ≠ [] := fun none =>
      nonzero (mixture.valid.magnitude_eq_zero_iff.mpr none)
    have atLeast : fmt.base ^ (c.used - 1) ≤ c.magnitude fmt :=
      pow_le_ofDigits fmt.one_lt_base nonempty mixture.valid.digits_lt mixture.valid.canonical
    refine ⟨(c.magnitude fmt).log2, ⟨(common _).mpr ?_, ?_⟩, ?_⟩
    · exact testBit_of_two_pow_le_and_two_pow_add_one_gt (log2_self_le nonzero) lt_log2_self
    · intro i member
      exact (le_log2 nonzero).mpr (ge_two_pow_of_testBit ((common i).mp member))
    -- the highest bit lies within the top digit, and is not its top bit
    rintro ⟨count, multiple⟩
    rw [base_pow] at atLeast below
    have low := (le_log2 nonzero).mpr atLeast
    have high := (log2_lt nonzero).mpr (not_le.mp notSet)
    have some : 0 < c.used := List.length_pos_of_ne_nil nonempty
    obtain ⟨used, usedEq⟩ := Nat.exists_eq_add_of_lt some
    rw [zero_add] at usedEq
    rw [usedEq, Nat.add_sub_cancel] at low
    rw [usedEq, mul_succ] at high
    have above : fmt.digitBit * used < fmt.digitBit * count := by omega
    have under : fmt.digitBit * count < fmt.digitBit * (used + 1) := by
      rw [mul_succ]
      omega
    have := lt_of_mul_lt_mul_left above
    have := lt_of_mul_lt_mul_left under
    omega
  · rintro ⟨h, ⟨member, greatest⟩, notTop⟩
    have set := (common h).mp member
    have atLeast := ge_two_pow_of_testBit set
    have nonzero : c.magnitude fmt ≠ 0 := by
      have := Nat.two_pow_pos h
      omega
    have top : h = (c.magnitude fmt).log2 := by
      apply le_antisymm
      · exact (le_log2 nonzero).mpr atLeast
      · exact greatest ((common _).mpr (testBit_of_two_pow_le_and_two_pow_add_one_gt
          (log2_self_le nonzero) lt_log2_self))
    refine ⟨nonzero, ?_⟩
    rw [if_neg]
    intro topBit
    rw [base_pow] at below
    have low := (le_log2 nonzero).mpr topBit
    have high := (log2_lt nonzero).mpr below
    refine notTop ⟨c.used, ?_⟩
    omega

/-- A negative result is exact when its top bit is the top bit of the wider operand. -/
theorem yields_negative_iff {m : Nat} (mixture : Mixture x y op k n c)
    (magnitude : op (2 ^ (fmt.digitBit * max x.i.used y.i.used) - (k + 1)) n =
      2 ^ (fmt.digitBit * max x.i.used y.i.used) - (m + 1))
    (small : m < 2 ^ (fmt.digitBit * max x.i.used y.i.used))
    (wide : 0 < fmt.digitBit * max x.i.used y.i.used) :
    Yields fmt (restoreSign fmt c d) (.negSucc m) ↔
      (op (2 ^ (fmt.digitBit * max x.i.used y.i.used) - (k + 1)) n).testBit
        (fmt.digitBit * max x.i.used y.i.used - 1) = true := by
  rw [← mixture.magnitude] at magnitude ⊢
  have fits : c.magnitude fmt < 2 ^ (fmt.digitBit * max x.i.used y.i.used) := by omega
  have positive := digitBit_pos fmt
  rw [Int.negSucc_eq, testBit_top wide fits, ← topWeight,
    yields_restoreSign_iff mixture.valid mixture.zpos]
  constructor
  · rintro ⟨_, exact⟩
    by_cases set : 2 ^ (fmt.digitBit * c.used - 1) ≤ c.magnitude fmt
    · rw [if_pos set, base_pow] at exact
      have same : 2 ^ (fmt.digitBit * c.used) =
          2 ^ (fmt.digitBit * max x.i.used y.i.used) := by omega
      have width := Nat.pow_right_injective (le_refl 2) same
      rw [width] at set
      exact set
    · rw [if_neg set] at exact
      omega
  intro atLeast
  have nonzero : c.magnitude fmt ≠ 0 := by
    have : 0 < topWeight x y := Nat.two_pow_pos _
    omega
  have nonempty : c.digits ≠ [] := fun none =>
    nonzero (mixture.valid.magnitude_eq_zero_iff.mpr none)
  have below := mixture.valid.magnitude_lt
  have least : fmt.base ^ (c.used - 1) ≤ c.magnitude fmt :=
    pow_le_ofDigits fmt.one_lt_base nonempty mixture.valid.digits_lt mixture.valid.canonical
  rw [base_pow] at below least
  -- the result has as many digits as the wider operand
  have upper : c.used - 1 < max x.i.used y.i.used := by
    have := (Nat.pow_lt_pow_iff_right (a := 2) (by decide)).mp (least.trans_lt fits)
    exact Nat.lt_of_mul_lt_mul_left this
  have lower : max x.i.used y.i.used ≤ c.used := by
    by_contra fewer
    have bound : fmt.digitBit * c.used ≤ fmt.digitBit * max x.i.used y.i.used - 1 := by
      have step := Nat.mul_le_mul_left fmt.digitBit (succ_le_of_lt (not_le.mp fewer))
      rw [mul_succ] at step
      omega
    have := Nat.pow_le_pow_right (n := 2) two_pos bound
    unfold topWeight at atLeast
    omega
  have same : c.used = max x.i.used y.i.used := by omega
  refine ⟨nonzero, ?_⟩
  rw [same, base_pow, ← topWeight, if_pos atLeast]
  omega

end

/-- What relates an operation on magnitudes to one on infinite two's complement. -/
structure Extends (fmt : DigitFormat) (op : Nat → Nat → Nat) (target : Int → Int → Int)
    (Exact : P6bigint fmt → P6bigint fmt → Prop) : Prop where
  zpos : ∀ m n : Nat, target m n = (op m n : Nat)
  neg : ∀ j k, -((op (j + 1) (k + 1) : Nat) : Int) = target (.negSucc j) (.negSucc k) ↔ j = k
  comm : ∀ i j, target i j = target j i
  mixed : ∀ {x y : P6bigint fmt} {k n : Nat} {c d : MpInt}, x.toInt = .negSucc k →
    y.toInt = n → k + 1 < 2 ^ (fmt.digitBit * max x.i.used y.i.used) →
    n < 2 ^ (fmt.digitBit * max x.i.used y.i.used) → Mixture x y op k n c →
    (Yields fmt (restoreSign fmt c d) (target (.negSucc k) n) ↔ Exact x y)

theorem yields_mixed_iff (computes : ComputesBitop fmt op bit bitop)
    (relates : Extends fmt op target Exact) (negative : x.i.sign = .neg) (zpos : y.i.sign = .zpos) :
    (Yields fmt (twoComplementBitop fmt x.i y.i bitop) (target x.toInt y.toInt) ↔
        Covers x y ∧ Exact x y) ∧
      (Yields fmt (twoComplementBitop fmt y.i x.i bitop) (target y.toInt x.toInt) ↔
        Covers x y ∧ Exact x y) := by
  obtain ⟨k, n, xEq, magnitudeX, yEq, magnitudeY, kLt, nLt⟩ := operands x y negative zpos
  by_cases covers : Covers x y
  · obtain ⟨⟨c, d, mixture, ran⟩, c', d', mixture', ran'⟩ :=
      twoComplementBitop_of_covers computes negative zpos magnitudeX magnitudeY covers
    rw [and_iff_right covers, ran, ran', relates.comm y.toInt, xEq, yEq]
    exact ⟨relates.mixed xEq yEq kLt nLt mixture, relates.mixed xEq yEq kLt nLt mixture'⟩
  obtain ⟨fails, fails'⟩ := twoComplementBitop_of_not_covers bitop negative zpos covers
  rw [fails, fails']
  exact ⟨iff_of_false not_yields_error fun both => covers both.1,
    iff_of_false not_yields_error fun both => covers both.1⟩

theorem twoComplementBitop_of_same_sign {a b : MpInt}
    (same : a.sign = b.sign) : twoComplementBitop fmt a b bitop = .ok (bitop a b) :=
  if_neg (not_not.mpr same)

theorem yields_twoComplementBitop_iff (computes : ComputesBitop fmt op bit bitop)
    (relates : Extends fmt op target Exact) (a b : P6bigint fmt) :
    Yields fmt (twoComplementBitop fmt a.i b.i bitop) (target a.toInt b.toInt) ↔
      ByOperands Exact a b := by
  have negA : a.toInt < 0 ↔ a.i.sign = .neg := a.valid.toInt_neg_iff
  have negB : b.toInt < 0 ↔ b.i.sign = .neg := b.valid.toInt_neg_iff
  unfold ByOperands
  cases signA : a.i.sign with
  | zpos =>
    have zposA : ¬ a.toInt < 0 := by simp [negA, signA]
    cases signB : b.i.sign with
    | zpos =>
      have valueA : a.toInt = a.i.magnitude fmt := MpInt.toInt_zpos signA
      have valueB : b.toInt = b.i.magnitude fmt := MpInt.toInt_zpos signB
      rw [twoComplementBitop_of_same_sign (signA.trans signB.symm), yields_ok,
        computes.toInt_of_zpos a.valid b.valid signA signB, valueA, valueB, relates.zpos]
      exact iff_of_true rfl (.inl ⟨Int.natCast_nonneg _, Int.natCast_nonneg _⟩)
    | neg =>
      have negative := negB.mpr signB
      rw [(yields_mixed_iff computes relates signB signA).2]
      constructor
      · intro exact
        exact .inr (.inr (.inr ⟨not_lt.mp zposA, negative, exact⟩))
      rintro (⟨_, impossible⟩ | ⟨impossible, _⟩ | ⟨impossible, _⟩ | ⟨_, _, exact⟩)
      · exact absurd negative impossible.not_gt
      · exact absurd impossible zposA
      · exact absurd impossible zposA
      · exact exact
  | neg =>
    have negative := negA.mpr signA
    cases signB : b.i.sign with
    | zpos =>
      have zposB : ¬ b.toInt < 0 := by simp [negB, signB]
      rw [(yields_mixed_iff computes relates signA signB).1]
      constructor
      · intro exact
        exact .inr (.inr (.inl ⟨negative, not_lt.mp zposB, exact⟩))
      rintro (⟨impossible, _⟩ | ⟨_, impossible, _⟩ | ⟨_, _, exact⟩ | ⟨impossible, _⟩)
      · exact absurd negative impossible.not_gt
      · exact absurd impossible zposB
      · exact exact
      · exact absurd negative impossible.not_gt
    | neg =>
      have negativeB := negB.mpr signB
      obtain ⟨j, jEq⟩ := Int.eq_negSucc_of_lt_zero negative
      obtain ⟨k, kEq⟩ := Int.eq_negSucc_of_lt_zero negativeB
      have magnitudeA : a.i.magnitude fmt = j + 1 := by
        rw [← MpInt.Valid.natAbs_toInt, ← P6bigint.toInt, jEq, Int.natAbs_negSucc]
      have magnitudeB : b.i.magnitude fmt = k + 1 := by
        rw [← MpInt.Valid.natAbs_toInt, ← P6bigint.toInt, kEq, Int.natAbs_negSucc]
      rw [twoComplementBitop_of_same_sign (signA.trans signB.symm), yields_ok,
        computes.toInt_of_neg a.valid b.valid signA signB, magnitudeA, magnitudeB, jEq, kEq,
        relates.neg]
      constructor
      · rintro rfl
        exact .inr (.inl ⟨Int.negSucc_lt_zero j, Int.negSucc_lt_zero j, rfl⟩)
      rintro (⟨impossible, _⟩ | ⟨_, _, same⟩ | ⟨_, impossible, _⟩ | ⟨impossible, _⟩)
      · exact absurd (Int.negSucc_lt_zero j) impossible.not_gt
      · exact Int.negSucc.inj same
      · exact absurd (Int.negSucc_lt_zero k) impossible.not_gt
      · exact absurd (Int.negSucc_lt_zero j) impossible.not_gt

theorem extends_and : Extends fmt (· &&& ·) Int.land AndExact where
  zpos := fun _ _ => rfl
  neg := by
    intro j k
    rw [← succ_and_succ_eq_iff]
    change -(((j + 1) &&& (k + 1) : Nat) : Int) = Int.negSucc (j ||| k) ↔ _
    rw [Int.negSucc_eq]
    omega
  comm := by
    rintro (m | m) (n | n)
    · exact congrArg Int.ofNat (Nat.and_comm m n)
    · rfl
    · rfl
    · exact congrArg Int.negSucc (Nat.or_comm m n)
  mixed := fun xEq yEq kLt nLt mixture => yields_conjunction_iff mixture xEq yEq kLt nLt

theorem width_pos (kLt : k + 1 < 2 ^ (fmt.digitBit * max x.i.used y.i.used)) :
    0 < fmt.digitBit * max x.i.used y.i.used := by
  rw [pos_iff_ne_zero]
  intro none
  rw [none] at kLt
  omega

theorem testBit_top_complement {width : Nat} (positive : 0 < width) (fits : k < 2 ^ width) :
    (2 ^ width - (k + 1)).testBit (width - 1) = true ↔ k + 1 ≤ 2 ^ (width - 1) := by
  rw [testBit_complement fits, Bool.and_eq_true, decide_eq_true_iff,
    and_iff_right (sub_lt positive (by decide)), Bool.not_eq_true', succ_le_iff,
    ← not_le, ← testBit_top positive fits, Bool.not_eq_true]

theorem extends_or : Extends fmt (· ||| ·) Int.lor OrExact where
  zpos := fun _ _ => rfl
  neg := by
    intro j k
    rw [← succ_or_succ_eq_iff]
    change -(((j + 1) ||| (k + 1) : Nat) : Int) = Int.negSucc (j &&& k) ↔ _
    rw [Int.negSucc_eq]
    omega
  comm := by
    rintro (m | m) (n | n)
    · exact congrArg Int.ofNat (Nat.or_comm m n)
    · rfl
    · rfl
    · exact congrArg Int.negSucc (Nat.and_comm m n)
  mixed := by
    intro x y k n c d xEq yEq kLt nLt mixture
    have wide := width_pos kLt
    have fits := (lt_succ_self k).trans kLt
    change Yields fmt _ (.negSucc (Nat.ldiff k n)) ↔ _
    rw [yields_negative_iff mixture (complement_or fits nLt)
      (bitwise_ldiff.lt_two_pow fits nLt) wide, testBit_or, Bool.or_eq_true,
      testBit_top_complement wide fits, testBit_top wide nLt, OrExact, xEq, yEq, topWeight,
      Int.neg_negSucc]
    norm_cast

theorem extends_xor : Extends fmt (· ^^^ ·) Int.xor XorExact where
  zpos := fun _ _ => rfl
  neg := by
    intro j k
    rw [← neg_succ_xor_succ_eq_iff]
    rfl
  comm := by
    rintro (m | m) (n | n)
    · exact congrArg Int.ofNat (Nat.xor_comm m n)
    · exact congrArg Int.negSucc (Nat.xor_comm m n)
    · exact congrArg Int.negSucc (Nat.xor_comm m n)
    · exact congrArg Int.ofNat (Nat.xor_comm m n)
  mixed := by
    intro x y k n c d xEq yEq kLt nLt mixture
    have wide := width_pos kLt
    have fits := (lt_succ_self k).trans kLt
    have top := testBit_top_complement wide fits
    have topOther := testBit_top wide nLt
    change Yields fmt _ (.negSucc (k ^^^ n)) ↔ _
    rw [yields_negative_iff mixture (complement_xor fits nLt)
      (bitwise_xor.lt_two_pow fits nLt) wide, testBit_xor, XorExact, xEq, yEq, topWeight,
      Int.neg_negSucc]
    norm_cast
    rw [← top, ← not_le, ← topOther, Bool.xor_iff_ne]
    cases (2 ^ (fmt.digitBit * max x.i.used y.i.used) - (k + 1)).testBit
      (fmt.digitBit * max x.i.used y.i.used - 1) <;>
      cases n.testBit (fmt.digitBit * max x.i.used y.i.used - 1) <;> decide

theorem toInt32_of_lt (small : count < 2 ^ 31) : toInt32 count = count := by
  rw [toInt32, Int.bmod_def]
  split <;> omega

theorem toInt32_add_le (large : 2 ^ 31 ≤ count) : toInt32 count + 2 ^ 32 ≤ count := by
  rw [toInt32, Int.bmod_def]
  split <;> omega

theorem tdiv_eq_fdiv_iff (positive : 0 < divisor) :
    a.tdiv divisor = a.fdiv divisor ↔ 0 ≤ a ∨ (divisor : Int) ∣ a := by
  have unit : (divisor : Int).sign = 1 := Int.sign_eq_one_of_pos (Int.natCast_pos.mpr positive)
  rw [Int.fdiv_eq_ediv_of_nonneg a (Int.natCast_nonneg divisor), Int.tdiv_eq_ediv, unit]
  split
  · exact iff_of_true (add_zero _) ‹_›
  · exact iff_of_false (by omega) ‹_›

theorem eq_fdiv_iff (large : 2 ≤ divisor) : a = a.fdiv divisor ↔ a = 0 ∨ a = -1 := by
  have positive : (0 : Int) < divisor := by omega
  rw [Int.fdiv_eq_ediv_of_nonneg a positive.le]
  constructor
  · intro same
    have lower := Int.ediv_mul_le a positive.ne'
    have upper := Int.lt_ediv_add_one_mul_self a positive
    rw [← same] at lower upper
    have wide : (2 : Int) ≤ divisor := by omega
    rcases lt_trichotomy a 0 with negative | zero | above
    · have : (a + 1) * (divisor : Int) ≤ (a + 1) * 2 ∨ 0 < a + 1 := by
        rcases Int.lt_or_le 0 (a + 1) with high | low
        · exact .inr high
        · exact .inl (Int.mul_le_mul_of_nonpos_left low wide)
      omega
    · exact .inl zero
    · have : a * 2 ≤ a * divisor := mul_le_mul_of_nonneg_left wide above.le
      omega
  · rintro (rfl | rfl)
    · exact (Int.zero_ediv _).symm
    · exact (Int.ediv_eq_neg_one_of_neg_of_le (by decide) (by omega)).symm

theorem tdiv_eq_fdiv_of_le_iff {small large : Nat} (positive : 0 < small)
    (far : 4 * small ≤ large) : a.tdiv small = a.fdiv large ↔
      (0 ≤ a ∧ a < small) ∨ (-((2 * small : Nat) : Int) < a ∧ a ≤ -(small : Int)) := by
  have largePos : (0 : Int) < large := by omega
  have lower := Int.ediv_mul_le a largePos.ne'
  have upper := Int.lt_ediv_add_one_mul_self a largePos
  rw [Int.fdiv_eq_ediv_of_nonneg a largePos.le]
  rcases Int.lt_or_le a 0 with negative | nonnegative
  · obtain ⟨m, rfl⟩ : ∃ m : Nat, a = -(m : Int) := ⟨a.natAbs, by omega⟩
    have quotient : (-(m : Int)).tdiv small = -((m / small : Nat) : Int) := by
      rw [Int.neg_tdiv]
      rfl
    have low := div_mul_le_self m small
    have high := lt_div_mul_add (a := m) positive
    rw [quotient]
    generalize m / small = q at low high
    constructor
    · intro same
      rw [← same] at lower upper
      have one : q = 1 := by
        rcases lt_trichotomy q 1 with none | one | several
        · have zero : q = 0 := by omega
          rw [zero] at lower
          omega
        · exact one
        obtain ⟨more, rfl⟩ := Nat.exists_eq_add_of_lt several
        have scaled := Nat.mul_le_mul_left (more + 1) far
        have above : ((more + 1) * large : Nat) < m := by
          have split : (-((1 + more + 1 : Nat) : Int) + 1) * large =
              -(((more + 1) * large : Nat) : Int) := by
            push_cast
            ring
          rw [split] at upper
          omega
        have spread : (1 + more + 1) * small = (more + 1) * small + small := by ring
        have grouped : (more + 1) * (4 * small) = 4 * ((more + 1) * small) := by ring
        have least : small ≤ (more + 1) * small := Nat.le_mul_of_pos_left _ (succ_pos _)
        omega
      rw [one] at low high
      omega
    · rintro (⟨_, _⟩ | ⟨above, below⟩)
      · omega
      have one : q = 1 := by
        rcases lt_trichotomy q 1 with none | one | several
        · have zero : q = 0 := by omega
          rw [zero] at high
          omega
        · exact one
        · have := Nat.mul_le_mul_right small several
          omega
      rw [one]
      exact (Int.ediv_eq_neg_one_of_neg_of_le negative (by omega)).symm
  · obtain ⟨m, rfl⟩ := Int.eq_ofNat_of_zero_le nonnegative
    have quotient : (m : Int).tdiv small = ((m / small : Nat) : Int) := rfl
    have quotientLarge : (m : Int) / large = ((m / large : Nat) : Int) := rfl
    rw [quotient, quotientLarge]
    constructor
    · intro same
      by_contra other
      have atLeast : small ≤ m := by omega
      have some : 0 < m / small := div_pos atLeast positive
      have halved : m / large ≤ m / small / 4 := by
        rw [Nat.div_div_eq_div_mul, mul_comm small]
        exact div_le_div_left far (by omega)
      omega
    · rintro (⟨_, below⟩ | ⟨_, below⟩)
      · rw [div_eq_of_lt (by omega), div_eq_of_lt (by omega)]
      · omega

theorem yields_nqpBigintShr_iff (a : P6bigint fmt) (count : Nat) :
    Yields fmt (nqpBigintShr a count) (a.toInt.fdiv (2 ^ count : Nat)) ↔ ShrExact a count := by
  have allocated : 0 < (mpZero mpInit).alloc := by decide
  unfold nqpBigintShr ShrExact
  rw [yields_ok]
  by_cases small : count < 2 ^ 31
  · rw [if_pos small, toInt32_of_lt small, (mpDiv2d_spec a.valid allocated count).2]
    exact tdiv_eq_fdiv_iff a.toInt (Nat.two_pow_pos count)
  have far := toInt32_add_le (not_lt.mp small)
  rw [if_neg small]
  by_cases none : toInt32 count ≤ 0
  · have wide : 2 ≤ 2 ^ count := le_self_pow (by omega : count ≠ 0) 2
    rw [if_pos none, (mpDiv2d_of_nonpos a.valid allocated none).2]
    exact eq_fdiv_iff a.toInt wide
  obtain ⟨taken, takenEq⟩ : ∃ taken : Nat, toInt32 count = taken :=
    Int.eq_ofNat_of_zero_le (not_le.mp none).le
  have wide : 4 * 2 ^ taken ≤ 2 ^ count := by
    rw [show 4 * 2 ^ taken = 2 ^ (taken + 2) by ring]
    exact Nat.pow_le_pow_right two_pos (by omega)
  rw [if_neg none, takenEq, Int.toNat_natCast, (mpDiv2d_spec a.valid allocated taken).2, pow_succ']
  exact tdiv_eq_fdiv_of_le_iff a.toInt (Nat.two_pow_pos taken) wide

theorem yields_nqpBigintShl_iff (a : P6bigint fmt) (count : Nat) :
    Yields fmt (nqpBigintShl a count) (a.toInt * 2 ^ count) ↔ ShlExact a count := by
  have allocated : 0 < (mpZero mpInit).alloc := by decide
  -- a shift by another count is exact for zero only
  have scaled : ∀ taken : Nat, taken < count →
      (a.toInt * 2 ^ taken = a.toInt * 2 ^ count ↔ a.toInt = 0) := by
    intro taken less
    have differ : (2 : Int) ^ taken ≠ 2 ^ count := by
      intro same
      exact less.ne (Int.pow_right_injective (le_refl 2) same)
    rw [mul_eq_mul_left_iff]
    exact or_iff_right differ
  unfold nqpBigintShl ShlExact
  by_cases small : count < 2 ^ 31
  · obtain ⟨result, ran, _, means⟩ := mpMul2d_spec (c := mpZero mpInit) a.valid.digits_lt count
    rw [toInt32_of_lt small, ran, yields_ok]
    exact iff_of_true means (.inl small)
  have far := toInt32_add_le (not_lt.mp small)
  rw [or_iff_right small]
  generalize toInt32 count = shift at far ⊢
  rcases Int.lt_or_le shift 0 with negative | nonnegative
  · have shifted := mpMul2d_of_neg (c := mpZero mpInit) a.valid allocated negative
    rw [or_iff_right negative.not_ge]
    by_cases divides : (fmt.digitBit : Int) ∣ shift
    · rw [if_pos divides] at shifted
      obtain ⟨result, ran, _, means⟩ := shifted
      have unshifted := scaled 0 (by omega)
      rw [pow_zero, mul_one] at unshifted
      rw [ran, yields_ok, means, and_iff_left divides]
      exact unshifted
    · rw [if_neg divides] at shifted
      rw [shifted]
      exact iff_of_false not_yields_error fun both => divides both.2
  obtain ⟨taken, takenEq⟩ := Int.eq_ofNat_of_zero_le nonnegative
  obtain ⟨result, ran, _, means⟩ := mpMul2d_spec (c := mpZero mpInit) a.valid.digits_lt taken
  rw [and_iff_left (.inl nonnegative), takenEq, ran, yields_ok, means]
  exact scaled taken (by omega)

theorem yields_nqpBigintBnot (a : P6bigint fmt) : Yields fmt (nqpBigintBnot a) (-a.toInt - 1) := by
  have added := (mpAddD_spec (c := mpZero mpInit) a.valid fmt.one_lt_base).2
  rw [nqpBigintBnot, yields_ok, toInt_mpNeg, added]
  exact Int.neg_add

/-- Each operator is the one on infinite two's complement, or the shift by a power of two,
exactly when its operands are such as the conditions say. -/
theorem bitwise_operators_exact_iff (a b : P6bigint fmt) (count : Nat) :
    (Yields fmt (nqpBigintBand a b) (Int.land a.toInt b.toInt) ↔ ByOperands AndExact a b) ∧
    (Yields fmt (nqpBigintBor a b) (Int.lor a.toInt b.toInt) ↔ ByOperands OrExact a b) ∧
    (Yields fmt (nqpBigintBxor a b) (Int.xor a.toInt b.toInt) ↔ ByOperands XorExact a b) ∧
    Yields fmt (nqpBigintBnot a) (-a.toInt - 1) ∧
    (Yields fmt (nqpBigintShr a count) (a.toInt.fdiv (2 ^ count : Nat)) ↔ ShrExact a count) ∧
    (Yields fmt (nqpBigintShl a count) (a.toInt * 2 ^ count) ↔ ShlExact a count) :=
  ⟨yields_twoComplementBitop_iff computesBitop_mpAnd extends_and a b,
    yields_twoComplementBitop_iff computesBitop_mpOr extends_or a b,
    yields_twoComplementBitop_iff computesBitop_mpXor extends_xor a b,
    yields_nqpBigintBnot a, yields_nqpBigintShr_iff a count, yields_nqpBigintShl_iff a count⟩

def singleDigit (sign : Sign) (digit : Nat) (positive : 0 < digit) (below : digit < fmt.base) :
    P6bigint fmt where
  i := ⟨sign, [digit], mpPrec⟩
  valid := by
    refine ⟨?_, fun _ => positive.ne', fun impossible => (nomatch impossible), ?_, ?_⟩
    · intro other member
      rw [List.mem_singleton.mp member]
      exact below
    · exact (by decide : 1 ≤ 32)
    · exact (by decide : 0 < 32)

/-- `-2 +& -3` is `-2`; in two's complement it is `-4`. -/
theorem band_minusTwo_minusThree : ¬ Yields .mp64Bit
      (nqpBigintBand (singleDigit .neg 2 (by decide) (by decide) : P6bigint .mp64Bit)
        (singleDigit .neg 3 (by decide) (by decide))) (Int.land
        (singleDigit .neg 2 (by decide) (by decide) : P6bigint .mp64Bit).toInt
        (singleDigit .neg 3 (by decide) (by decide) : P6bigint .mp64Bit).toInt) := by
  have left : nqpBigintBand (singleDigit .neg 2 (by decide) (by decide) : P6bigint .mp64Bit)
      (singleDigit .neg 3 (by decide) (by decide)) = .ok ⟨.neg, [2], 32⟩ := by decide
  rw [left, yields_ok]
  decide

end RakudoStar.Bigint
