import RakudoStar.Bigint.Shifts

/-!
# Powers of big integers

`nqp_bigint_pow` falls back on an infinity when `mp_get_int` does not return the whole exponent.
-/

namespace RakudoStar.Bigint

open Digits RakudoStar.Except List Nat

/-- The multiplications of the library, which pick an algorithm by size. -/
structure Multiplier (fmt : DigitFormat) where
  mpMul : MpInt → MpInt → MpInt
  mpSqr : MpInt → MpInt
  mpMul_valid : ∀ {a b}, a.Valid fmt → b.Valid fmt → (mpMul a b).Valid fmt
  mpMul_toInt : ∀ {a b}, a.Valid fmt → b.Valid fmt →
    (mpMul a b).toInt fmt = a.toInt fmt * b.toInt fmt
  mpSqr_valid : ∀ {a}, a.Valid fmt → (mpSqr a).Valid fmt
  mpSqr_toInt : ∀ {a}, a.Valid fmt → (mpSqr a).toInt fmt = a.toInt fmt * a.toInt fmt

variable {fmt : DigitFormat} {exponent : Nat} {a c : MpInt} {base : Int}
  (multiplier : Multiplier fmt)

/-- `mp_get_int`: a word shifted up by one digit after the other, then cut to 32 bits. -/
def mpGetInt (fmt : DigitFormat) (a : MpInt) : Nat :=
  if a.used = 0 then 0
  else
    let count := min a.used ((fmt.wordBit + fmt.digitBit - 1) / fmt.digitBit)
    let res := (a.digits.take count).foldr
      (fun digit res => ((res <<< fmt.digitBit) % 2 ^ fmt.wordBit) ||| digit) 0
    res &&& 0xFFFFFFFF

/-- The loop of `mp_expt_d`. -/
def exptLoop (multiplier : Multiplier fmt) (g c : MpInt) (b : Nat) : MpInt :=
  if b = 0 then c
  else
    let c := if b &&& 1 ≠ 0 then multiplier.mpMul c g else c
    let g := if 1 < b then multiplier.mpSqr g else g
    exptLoop multiplier g c (b >>> 1)
termination_by b
decreasing_by
  rw [shiftRight_eq_div_pow]
  exact Nat.div_lt_self (Nat.pos_of_ne_zero ‹_›) (by decide)

def mpExptD (multiplier : Multiplier fmt) (a : MpInt) (b : Nat) (c : MpInt) : MpInt :=
  exptLoop multiplier (mpInitCopy a) (mpSet fmt c 1) b

/-- The type that a result is boxed into: that of big integers, or that of the base. -/
inductive BoxType where
  | bigint
  | sameAsBase
  deriving DecidableEq, Repr

/-- What `nqp_bigint_pow` returns; floats are for negative exponents only. -/
inductive Power where
  | integer (type : BoxType) (i : MpInt)
  | infinity (sign : Sign)
  | float (base exponent : MpInt)
  deriving DecidableEq, Repr

def nqpBigintPow (multiplier : Multiplier fmt) (base exponent : P6bigint fmt) :
    Except Fault Power := do
  let cmp := mpCmpD exponent.i 0
  if cmp = .eq ∨ mpCmpD base.i 1 = .eq then do
    -- $x ** 0 or 1 ** $x
    let one ← mpSetInt fmt (mpZero mpInit) 1
    .ok (.integer .bigint one)
  else if cmp = .gt then
    let exponentD := mpGetInt fmt exponent.i
    if mpCmpD exponent.i exponentD = .gt then
      let cmp := mpCmpD base.i 0
      if cmp = .eq ∨ mpCmpD base.i 1 = .eq then
        .ok (.integer .sameAsBase (mpCopy base.i (mpZero mpInit)))
      else if cmp = .gt then .ok (.infinity .zpos)
      else .ok (.infinity .neg)
    else .ok (.integer .bigint (mpExptD multiplier base.i exponentD (mpZero mpInit)))
  else .ok (.float base.i exponent.i)

/-- The least exponent that is not held by one digit, or by the 32 bits of `mp_get_int`. -/
def exponentLimit (fmt : DigitFormat) : Nat :=
  min fmt.base (2 ^ 32)

/-- A result is the power itself, or an infinity of its sign if the exponent is too large. -/
def Power.IsPower (fmt : DigitFormat) (base : Int) (exponent : Nat) : Power → Prop
  | .integer _ i => i.toInt fmt = base ^ exponent
  | .infinity sign =>
    exponentLimit fmt ≤ exponent ∧ 1 < (base ^ exponent).natAbs ∧
      (sign = .zpos ↔ 0 < base ^ exponent)
  | .float _ _ => False

/-- A run ends, with such a result. -/
def RaisesTo (fmt : DigitFormat) (base : Int) (exponent : Nat) (run : Except Fault Power) : Prop :=
  ∃ power, run = .ok power ∧ power.IsPower fmt base exponent

theorem raisesTo_ok {power : Power} :
    RaisesTo fmt base exponent (.ok power) ↔ power.IsPower fmt base exponent := by
  constructor
  · rintro ⟨result, same, means⟩
    cases same
    exact means
  · intro means
    exact ⟨power, rfl, means⟩

theorem foldr_getInt_mod {digits : List Nat} (digitsLt : ∀ digit ∈ digits, digit < fmt.base) :
    digits.foldr (fun digit res => ((res <<< fmt.digitBit) % 2 ^ fmt.wordBit) ||| digit) 0 %
        2 ^ fmt.wordBit = Nat.ofDigits fmt.base digits % 2 ^ fmt.wordBit := by
  induction digits with
  | nil => rfl
  | cons digit digits ih =>
    have first := digitsLt digit mem_cons_self
    have rest := ih (forall_mem_cons.mp digitsLt).2
    rw [foldr_cons]
    generalize digits.foldr (fun digit res =>
      ((res <<< fmt.digitBit) % 2 ^ fmt.wordBit) ||| digit) 0 = res at rest ⊢
    have split : 2 ^ fmt.wordBit = 2 ^ fmt.digitBit * 2 ^ (fmt.wordBit - fmt.digitBit) := by
      rw [← pow_add, Nat.add_sub_cancel' fmt.digitBit_lt_wordBit.le]
    have shifted : (res <<< fmt.digitBit) % 2 ^ fmt.wordBit =
        2 ^ fmt.digitBit * (res % 2 ^ (fmt.wordBit - fmt.digitBit)) := by
      rw [shiftLeft_eq, mul_comm, split, mul_mod_mul_left]
    have added : ((res <<< fmt.digitBit) % 2 ^ fmt.wordBit) ||| digit =
        (res <<< fmt.digitBit) % 2 ^ fmt.wordBit + digit := by
      rw [shifted]
      exact (two_pow_add_eq_or_of_lt first _).symm
    rw [added, mod_add_mod, shiftLeft_eq, ofDigits_cons,
      add_comm digit, add_mod, mul_mod, rest, ← mul_mod, ← add_mod, mul_comm, DigitFormat.base]

theorem mpGetInt_eq (valid : a.Valid fmt) : mpGetInt fmt a = a.magnitude fmt % 2 ^ 32 := by
  unfold mpGetInt
  by_cases none : a.used = 0
  · rw [if_pos none, MpInt.magnitude, length_eq_zero_iff.mp none]
    rfl
  rw [if_neg none]
  obtain ⟨count, countEq⟩ : ∃ count,
      min a.used ((fmt.wordBit + fmt.digitBit - 1) / fmt.digitBit) = count := ⟨_, rfl⟩
  have taken := @foldr_getInt_mod fmt (a.digits.take count)
    fun digit member => valid.digits_lt digit (mem_of_mem_take member)
  -- the digits that are not read lie above the word
  have whole : Nat.ofDigits fmt.base (a.digits.take count) % 2 ^ fmt.wordBit =
      a.magnitude fmt % 2 ^ fmt.wordBit := by
    rcases lt_or_ge count a.used with fewer | all
    · have enough : fmt.wordBit ≤ fmt.digitBit * count := by
        have room : count = (fmt.wordBit + fmt.digitBit - 1) / fmt.digitBit := by omega
        have positive := digitBit_pos fmt
        have bound := lt_mul_div_succ (fmt.wordBit + fmt.digitBit - 1) positive
        rw [← room, mul_succ] at bound
        omega
      obtain ⟨above, aboveEq⟩ : 2 ^ fmt.wordBit ∣ fmt.base ^ count := by
        rw [DigitFormat.base, ← pow_mul]
        exact pow_dvd_pow 2 enough
      have split : a.magnitude fmt = Nat.ofDigits fmt.base (a.digits.take count) +
          fmt.base ^ count * Nat.ofDigits fmt.base (a.digits.drop count) := by
        have length : (a.digits.take count).length = count := by
          rw [length_take]
          exact min_eq_left fewer.le
        conv_lhs => rw [MpInt.magnitude, ← take_append_drop count a.digits]
        rw [ofDigits_append, length]
      rw [split, aboveEq, mul_assoc, add_mul_mod_self_left]
    · rw [take_of_length_le all, MpInt.magnitude]
  rw [countEq, show (0xFFFFFFFF : Nat) = 2 ^ 32 - 1 from rfl, and_two_pow_sub_one_eq_mod]
  have word : 2 ^ 32 ∣ 2 ^ fmt.wordBit := pow_dvd_pow 2 fmt.thirtyTwo_le_wordBit
  rw [← mod_mod_of_dvd _ word, taken, whole, mod_mod_of_dvd _ word]

theorem mpCmpD_mpGetInt_iff (valid : a.Valid fmt) (zpos : a.sign = .zpos) :
    mpCmpD a (mpGetInt fmt a) = .gt ↔ exponentLimit fmt ≤ a.magnitude fmt := by
  unfold mpCmpD exponentLimit
  rw [if_neg (by rw [zpos]; decide), mpGetInt_eq valid]
  by_cases several : 1 < a.used
  · rw [if_pos several]
    exact iff_of_true rfl ((Nat.min_le_left _ _).trans (valid.base_le_magnitude several))
  have single := MpInt.magnitude_of_used_le_one fmt (not_lt.mp several)
  have below : a.magnitude fmt < fmt.base := by
    have lt := valid.magnitude_lt
    exact lt.trans_le ((Nat.pow_le_pow_right fmt.base_pos (not_lt.mp several)).trans (pow_one _).le)
  rw [if_neg several, ← single, min_le_iff]
  generalize a.magnitude fmt = exponent at below
  by_cases large : 2 ^ 32 ≤ exponent
  · have less : exponent % 2 ^ 32 < exponent := (mod_lt _ (Nat.two_pow_pos 32)).trans_le large
    rw [if_pos less]
    exact iff_of_true rfl (.inr large)
  rw [mod_eq_of_lt (not_le.mp large), if_neg (lt_irrefl _), if_neg (lt_irrefl _)]
  refine iff_of_false (by decide) ?_
  rintro (atLeast | atLeast)
  · exact absurd below atLeast.not_gt
  · exact large atLeast

theorem exptLoop_spec (b : Nat) {g : MpInt} (validG : g.Valid fmt) (validC : c.Valid fmt) :
    (exptLoop multiplier g c b).toInt fmt = c.toInt fmt * g.toInt fmt ^ b := by
  induction b using Nat.strong_induction_on generalizing g c with
  | _ b ih =>
    rw [exptLoop]
    by_cases zero : b = 0
    · rw [if_pos zero, zero, pow_zero, mul_one]
    have half : b >>> 1 < b := by
      rw [shiftRight_eq_div_pow]
      exact div_lt_self (Nat.pos_of_ne_zero zero) (by decide)
    have parts : b = 2 * (b >>> 1) + b % 2 := by
      rw [shiftRight_eq_div_pow]
      exact (div_add_mod b 2).symm
    -- squaring is left out in the last round only, where its result is not used
    have squared : ∃ next : MpInt, next.Valid fmt ∧
        (if 1 < b then multiplier.mpSqr g else g) = next ∧
        next.toInt fmt ^ (b >>> 1) = g.toInt fmt ^ (2 * (b >>> 1)) := by
      by_cases more : 1 < b
      · refine ⟨_, multiplier.mpSqr_valid validG, if_pos more, ?_⟩
        rw [multiplier.mpSqr_toInt validG, pow_mul, pow_two]
      have one : b = 1 := by omega
      refine ⟨g, validG, if_neg more, ?_⟩
      rw [one]
      rfl
    obtain ⟨next, validNext, nextEq, power⟩ := squared
    rw [if_neg zero]
    rw [nextEq, and_one_is_mod]
    by_cases odd : b % 2 = 0
    · rw [if_neg (not_not.mpr odd), ih _ half validNext validC, power]
      conv_rhs => rw [parts, odd, add_zero]
    have one : b % 2 = 1 := by omega
    rw [if_pos odd, ih _ half validNext (multiplier.mpMul_valid validC validG), power,
      multiplier.mpMul_toInt validC validG]
    conv_rhs => rw [parts, one, pow_succ]
    ring

theorem toInt_mpExptD (valid : a.Valid fmt) (allocated : 0 < c.alloc) (b : Nat) :
    (mpExptD multiplier a b c).toInt fmt = a.toInt fmt ^ b := by
  have copied : (mpInitCopy a).Valid fmt := valid_mpCopy valid (by decide)
  rw [mpExptD, exptLoop_spec multiplier b copied (valid_mpSet allocated 1), toInt_mpSet,
    mod_eq_of_lt fmt.one_lt_base, cast_one, one_mul]
  rfl

theorem one_lt_natAbs_pow (more : 1 < base.natAbs)
    (positive : exponent ≠ 0) : 1 < (base ^ exponent).natAbs := by
  rw [Int.natAbs_pow]
  exact one_lt_pow positive more

section

variable (multiplier : Multiplier fmt) {base exponent : P6bigint fmt} {e : Nat}

theorem mpCmpD_eq_iff (a : P6bigint fmt) {digit : Nat} (below : digit < fmt.base) :
    (mpCmpD a.i digit = .eq ↔ a.toInt = digit) ∧ (mpCmpD a.i digit = .gt ↔ digit < a.toInt) := by
  have compared : mpCmpD a.i digit = compare a.toInt digit := mpCmpD_eq_compare a.valid below
  rw [compared, compare_eq_iff_eq, compare_gt_iff_gt]
  exact ⟨Iff.rfl, Iff.rfl⟩

theorem nqpBigintPow_of_trivial (easy : exponent.toInt = 0 ∨ base.toInt = 1) :
    ∃ one, nqpBigintPow multiplier base exponent = .ok (.integer .bigint one) ∧
      one.toInt fmt = 1 := by
  obtain ⟨one, ran, _, means⟩ := mpSetInt_one fmt (mpZero mpInit)
  have taken : mpCmpD exponent.i 0 = .eq ∨ mpCmpD base.i 1 = .eq :=
    easy.imp (mpCmpD_eq_iff exponent fmt.base_pos).1.mpr (mpCmpD_eq_iff base fmt.one_lt_base).1.mpr
  refine ⟨one, ?_, means⟩
  unfold nqpBigintPow
  rw [if_pos taken, ran, ok_bind]

theorem nqpBigintPow_of_pos (positive : 0 < exponent.toInt) (notOne : base.toInt ≠ 1) :
    nqpBigintPow multiplier base exponent = if exponentLimit fmt ≤ exponent.toInt.toNat then
        if base.toInt = 0 then .ok (.integer .sameAsBase (mpCopy base.i (mpZero mpInit)))
        else if 0 < base.toInt then .ok (.infinity .zpos) else .ok (.infinity .neg)
      else .ok (.integer .bigint
        (mpExptD multiplier base.i (mpGetInt fmt exponent.i) (mpZero mpInit))) := by
  have zpos : exponent.i.sign = .zpos := by
    rw [← MpInt.sign_ne_neg, Ne, ← exponent.valid.toInt_neg_iff]
    exact not_lt.mpr positive.le
  have magnitude : exponent.i.magnitude fmt = exponent.toInt.toNat := by
    have means : exponent.toInt = exponent.i.magnitude fmt := MpInt.toInt_zpos zpos
    omega
  have exponentZero := mpCmpD_eq_iff exponent fmt.base_pos
  have baseZero := mpCmpD_eq_iff base fmt.base_pos
  have baseOne := mpCmpD_eq_iff base fmt.one_lt_base
  have tooLarge := mpCmpD_mpGetInt_iff exponent.valid zpos
  rw [magnitude] at tooLarge
  have notTaken : ¬ (mpCmpD exponent.i 0 = .eq ∨ mpCmpD base.i 1 = .eq) := by
    rintro (zero | one)
    · exact positive.ne' (exponentZero.1.mp zero)
    · exact notOne (baseOne.1.mp one)
  unfold nqpBigintPow
  rw [if_neg notTaken, if_pos (exponentZero.2.mpr positive)]
  by_cases large : exponentLimit fmt ≤ exponent.toInt.toNat
  · rw [if_pos (tooLarge.mpr large), if_pos large]
    by_cases zero : base.toInt = 0
    · rw [if_pos (.inl (baseZero.1.mpr zero)), if_pos zero]
    have other : ¬ (mpCmpD base.i 0 = .eq ∨ mpCmpD base.i 1 = .eq) := by
      rintro (isZero | one)
      · exact zero (baseZero.1.mp isZero)
      · exact notOne (baseOne.1.mp one)
    rw [if_neg other, if_neg zero]
    by_cases above : 0 < base.toInt
    · rw [if_pos (baseZero.2.mpr above), if_pos above]
    · rw [if_neg fun greater => above (baseZero.2.mp greater), if_neg above]
  · rw [if_neg fun greater => large (tooLarge.mp greater), if_neg large]

theorem nqpBigintPow_of_neg (negative : exponent.toInt < 0) (notOne : base.toInt ≠ 1) :
    nqpBigintPow multiplier base exponent = .ok (.float base.i exponent.i) := by
  have exponentZero := mpCmpD_eq_iff exponent fmt.base_pos
  have baseOne := mpCmpD_eq_iff base fmt.one_lt_base
  have notTaken : ¬ (mpCmpD exponent.i 0 = .eq ∨ mpCmpD base.i 1 = .eq) := by
    rintro (zero | one)
    · exact negative.ne (exponentZero.1.mp zero)
    · exact notOne (baseOne.1.mp one)
  unfold nqpBigintPow
  rw [if_neg notTaken, if_neg fun above => negative.not_gt (exponentZero.2.mp above)]

theorem toInt_mpExptD_mpGetInt (nonnegative : 0 ≤ exponent.toInt)
    (small : exponent.toInt.toNat < exponentLimit fmt) :
    (mpExptD multiplier base.i (mpGetInt fmt exponent.i) (mpZero mpInit)).toInt fmt =
      base.toInt ^ exponent.toInt.toNat := by
  have natAbs : exponent.toInt.natAbs = exponent.toInt.toNat := by
    conv_lhs => rw [← Int.toNat_of_nonneg nonnegative]
    exact Int.natAbs_natCast _
  have low : mpGetInt fmt exponent.i = exponent.toInt.toNat := by
    rw [mpGetInt_eq exponent.valid, ← MpInt.Valid.natAbs_toInt, ← P6bigint.toInt, natAbs,
      mod_eq_of_lt (small.trans_le (Nat.min_le_right _ _))]
  rw [toInt_mpExptD multiplier base.valid (by decide), low]
  rfl

theorem isPower_neg_infinity_iff {base : Int} (negative : base < 0)
    (large : exponentLimit fmt ≤ e) (positive : e ≠ 0) :
    Power.IsPower fmt base e (.infinity .neg) ↔ base ≤ -2 ∧ Odd e := by
  rw [Power.IsPower]
  constructor
  · rintro ⟨_, more, signs⟩
    have notOne : base ≠ -1 := by
      rintro rfl
      rw [Int.natAbs_pow, show (-1 : Int).natAbs = 1 from rfl, one_pow] at more
      exact absurd more (by decide)
    refine ⟨by omega, ?_⟩
    rw [← not_even_iff_odd]
    intro even
    have impossible := signs.mpr (even.pow_pos negative.ne)
    cases impossible
  · rintro ⟨below, odd⟩
    have powNegative := odd.pow_neg negative
    exact ⟨large, one_lt_natAbs_pow (by omega) positive, iff_of_false (by decide) (by omega)⟩

end

/-- `nqp_bigint_pow` returns the power, or an infinity in its place, exactly when the
exponent is below the limit, or the base is not negative, or the base is below `-1` and the
exponent is odd. -/
theorem nqpBigintPow_raisesTo_iff (multiplier : Multiplier fmt) (base exponent : P6bigint fmt)
    (nonnegative : 0 ≤ exponent.toInt) :
    RaisesTo fmt base.toInt exponent.toInt.toNat (nqpBigintPow multiplier base exponent) ↔
      exponent.toInt < exponentLimit fmt ∨ 0 ≤ base.toInt ∨
        (base.toInt ≤ -2 ∧ Odd exponent.toInt) := by
  have limitPos : 0 < exponentLimit fmt := Nat.lt_min.mpr ⟨fmt.base_pos, Nat.two_pow_pos 32⟩
  by_cases easy : exponent.toInt = 0 ∨ base.toInt = 1
  · obtain ⟨one, ran, means⟩ := nqpBigintPow_of_trivial multiplier easy
    rw [ran, raisesTo_ok, Power.IsPower, means]
    rcases easy with zero | isOne
    · rw [zero]
      exact iff_of_true (pow_zero _).symm (.inl (by exact_mod_cast limitPos))
    · rw [isOne]
      exact iff_of_true (one_pow _).symm (.inr (.inl (by decide)))
  rw [not_or] at easy
  obtain ⟨e, eEq⟩ := Int.eq_ofNat_of_zero_le nonnegative
  have positive : e ≠ 0 := by omega
  rw [nqpBigintPow_of_pos multiplier (by omega) easy.2, eEq, Int.toNat_natCast]
  by_cases large : exponentLimit fmt ≤ e
  · rw [if_pos large, or_iff_right (by omega)]
    rcases lt_trichotomy base.toInt 0 with negative | zero | above
    · rw [if_neg negative.ne, if_neg negative.not_gt, raisesTo_ok,
        isPower_neg_infinity_iff negative large positive, or_iff_right (by omega),
        Int.odd_coe_nat]
    · rw [if_pos zero, raisesTo_ok, Power.IsPower, toInt_mpCopy]
      refine iff_of_true ?_ (.inl zero.ge)
      rw [← P6bigint.toInt, zero, zero_pow positive]
    rw [if_neg above.ne', if_pos above, raisesTo_ok, Power.IsPower]
    exact iff_of_true
      ⟨large, one_lt_natAbs_pow (by omega) positive, iff_of_true rfl (pow_pos above e)⟩
      (.inl above.le)
  have toNat : exponent.toInt.toNat = e := by rw [eEq, Int.toNat_natCast]
  have small : exponent.toInt.toNat < exponentLimit fmt := by
    rw [toNat]
    exact not_le.mp large
  rw [if_neg large, raisesTo_ok, Power.IsPower,
    toInt_mpExptD_mpGetInt multiplier nonnegative small, toNat]
  exact iff_of_true rfl (.inl (by exact_mod_cast not_le.mp large))

/-- Multiplications that go through the integers. -/
def exactMultiplier (fmt : DigitFormat) : Multiplier fmt where
  mpMul := fun a b => .ofInt fmt (a.toInt fmt * b.toInt fmt)
  mpSqr := fun a => .ofInt fmt (a.toInt fmt * a.toInt fmt)
  mpMul_valid := fun _ _ => MpInt.valid_ofInt _
  mpMul_toInt := fun _ _ => MpInt.toInt_ofInt _
  mpSqr_valid := fun _ => MpInt.valid_ofInt _
  mpSqr_toInt := fun _ => MpInt.toInt_ofInt _

/-- `2 ** 10` is the power. -/
theorem nqpBigintPow_two_ten : RaisesTo .mp64Bit 2 10 (nqpBigintPow (exactMultiplier .mp64Bit)
      (P6bigint.ofInt .mp64Bit 2) (P6bigint.ofInt .mp64Bit 10)) := by
  have applied := nqpBigintPow_raisesTo_iff (exactMultiplier .mp64Bit)
    (P6bigint.ofInt .mp64Bit 2) (P6bigint.ofInt .mp64Bit 10)
    (by rw [P6bigint.toInt_ofInt]; decide)
  rw [P6bigint.toInt_ofInt, P6bigint.toInt_ofInt] at applied
  exact applied.mpr (.inr (.inl (by decide)))

/-- `(-1) ** 4294967296` is an infinity, where the power is one. -/
theorem nqpBigintPow_minusOne :
    ¬ RaisesTo .mp64Bit (-1) 4294967296 (nqpBigintPow (exactMultiplier .mp64Bit)
      (P6bigint.ofInt .mp64Bit (-1)) (P6bigint.ofInt .mp64Bit 4294967296)) := by
  have large : exponentLimit .mp64Bit ≤ 4294967296 := Nat.min_le_right _ _
  have base : (P6bigint.ofInt .mp64Bit (-1)).toInt = -1 := P6bigint.toInt_ofInt _
  have exponent : (P6bigint.ofInt .mp64Bit 4294967296).toInt = 4294967296 := P6bigint.toInt_ofInt _
  have count : Int.toNat 4294967296 = 4294967296 := rfl
  rw [nqpBigintPow_of_pos (exactMultiplier .mp64Bit) (by rw [exponent]; decide)
    (by rw [base]; decide), base, exponent, count, if_pos large, if_neg (by decide),
    if_neg (by decide), raisesTo_ok, isPower_neg_infinity_iff (by decide) large (by decide)]
  rintro ⟨impossible, _⟩
  exact absurd impossible (by decide)

end RakudoStar.Bigint
