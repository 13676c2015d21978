import RakudoStar.Foundation.Digits
import RakudoStar.Foundation.Except

/-!
# Big integers

The integers of `libtommath`: a sign, the digits in use from the lowest on, and the number of
digits allocated. The digits from `used` on are zero, as every routine that lowers `used` clears
them, and not kept here.
-/

namespace RakudoStar.Bigint

open Digits Nat Int

/-- `DIGIT_BIT`, and the bits of a digit's machine word; not those of 8 and 16 bits. -/
structure DigitFormat where
  digitBit : Nat
  wordBit : Nat
  seven_le_digitBit : 7 ≤ digitBit
  digitBit_lt_wordBit : digitBit < wordBit
  thirtyTwo_le_wordBit : 32 ≤ wordBit

namespace DigitFormat

/-- `MP_64BIT`, which `tommath.h` sets on `x86_64`. -/
def mp64Bit : DigitFormat where
  digitBit := 60
  wordBit := 64
  seven_le_digitBit := by decide
  digitBit_lt_wordBit := by decide
  thirtyTwo_le_wordBit := by decide

/-- The number of values of a digit. -/
def base (fmt : DigitFormat) : Nat :=
  2 ^ fmt.digitBit

variable (fmt : DigitFormat)

theorem one_lt_base : 1 < fmt.base :=
  Nat.one_lt_two_pow (by have := fmt.seven_le_digitBit; omega)

theorem oneTwentyEight_le_base : 128 ≤ fmt.base :=
  Nat.pow_le_pow_right two_pos fmt.seven_le_digitBit

theorem base_pos : 0 < fmt.base :=
  Nat.two_pow_pos _

def mpMask (fmt : DigitFormat) : Nat :=
  2 ^ fmt.digitBit - 1

@[simp]
theorem and_mpMask (word : Nat) : word &&& fmt.mpMask = word % fmt.base :=
  and_two_pow_sub_one_eq_mod word fmt.digitBit

end DigitFormat

/-- `MP_ZPOS` and `MP_NEG`. -/
inductive Sign where
  | zpos
  | neg
  deriving DecidableEq, Repr

/-- What C leaves undefined. -/
inductive Fault where
  /-- A read outside the digits that memory is allocated for. -/
  | outsideDigits
  /-- A shift by more than the bits of a word. -/
  | shiftCount
  deriving DecidableEq, Repr

structure MpInt where
  sign : Sign
  digits : List Nat
  alloc : Nat
  deriving DecidableEq, Repr

def mpPrec : Nat :=
  32

namespace MpInt

def used (a : MpInt) : Nat :=
  a.digits.length

def digit (a : MpInt) (k : Int) : Except Fault Nat :=
  if 0 ≤ k ∧ k < a.alloc then .ok (a.digits.getD k.toNat 0) else .error .outsideDigits

/-- `m->dp[0]`, which is always allocated. -/
def lowest (a : MpInt) : Nat :=
  a.digits.headD 0

end MpInt

def mpInit : MpInt where
  sign := .zpos
  digits := []
  alloc := mpPrec

def mpZero (a : MpInt) : MpInt :=
  { a with sign := .zpos, digits := [] }

def mpGrow (a : MpInt) (size : Nat) : MpInt :=
  if a.alloc < size then { a with alloc := size + (mpPrec * 2 - size % mpPrec) } else a

def mpCopy (a b : MpInt) : MpInt :=
  { mpGrow b a.used with sign := a.sign, digits := a.digits }

def mpInitCopy (b : MpInt) : MpInt :=
  mpCopy b mpInit

def mpClamp (a : MpInt) : MpInt :=
  let digits := clamp a.digits
  { a with
    digits := digits
    sign := if digits.length = 0 then .zpos else a.sign }

def mpSet (fmt : DigitFormat) (a : MpInt) (b : Nat) : MpInt :=
  let digit := b &&& fmt.mpMask
  { mpZero a with digits := if digit ≠ 0 then [digit] else [] }

/-- `mp_neg` of a number into itself; into another one it copies the number first. -/
def mpNeg (a : MpInt) : MpInt :=
  if a.used ≠ 0 then { a with sign := if a.sign = .zpos then .neg else .zpos }
  else { a with sign := .zpos }

def mpCmpD (a : MpInt) (b : Nat) : Ordering :=
  if a.sign = .neg then .lt
  else if 1 < a.used then .gt
  else if b < a.lowest then .gt
  else if a.lowest < b then .lt
  else .eq

namespace MpInt

variable (fmt : DigitFormat)

/-- The number without its sign. -/
def magnitude (a : MpInt) : Nat :=
  Nat.ofDigits fmt.base a.digits

/-- The integer that is meant. -/
def toInt (a : MpInt) : Int :=
  match a.sign with
  | .zpos => a.magnitude fmt
  | .neg => -a.magnitude fmt

/-- What all routines keep. -/
structure Valid (a : MpInt) : Prop where
  digits_lt : ∀ digit ∈ a.digits, digit < fmt.base
  canonical : Canonical a.digits
  zero_zpos : a.digits = [] → a.sign = .zpos
  used_le_alloc : a.used ≤ a.alloc
  alloc_pos : 0 < a.alloc

end MpInt

/-- The body of an object of the `P6bigint` representation. -/
structure P6bigint (fmt : DigitFormat) where
  i : MpInt
  valid : i.Valid fmt

/-- The integer that is meant. -/
def P6bigint.toInt {fmt : DigitFormat} (a : P6bigint fmt) : Int :=
  a.i.toInt fmt

/-- A run comes to an end within what C defines, and leaves the given integer. -/
def Yields (fmt : DigitFormat) (result : Except Fault MpInt) (value : Int) : Prop :=
  ∃ c, result = .ok c ∧ c.toInt fmt = value

variable {fmt : DigitFormat} {a b : MpInt} {value : Int} (size : Nat)

theorem yields_ok : Yields fmt (.ok a) value ↔ a.toInt fmt = value := by
  constructor
  · rintro ⟨c, same, means⟩
    cases same
    exact means
  · intro means
    exact ⟨a, rfl, means⟩

theorem not_yields_error {fault : Fault} : ¬ Yields fmt (.error fault) value := by
  rintro ⟨c, impossible, _⟩
  cases impossible

namespace MpInt

theorem toInt_zpos (positive : a.sign = .zpos) : a.toInt fmt = a.magnitude fmt := by
  rw [toInt, positive]

theorem toInt_neg (negative : a.sign = .neg) : a.toInt fmt = -a.magnitude fmt := by
  rw [toInt, negative]

theorem sign_ne_zpos : a.sign ≠ .zpos ↔ a.sign = .neg := by
  cases a.sign <;> decide

theorem sign_ne_neg : a.sign ≠ .neg ↔ a.sign = .zpos := by
  cases a.sign <;> decide

namespace Valid

variable (valid : a.Valid fmt)

include valid

theorem magnitude_lt : a.magnitude fmt < fmt.base ^ a.used :=
  ofDigits_lt fmt.one_lt_base valid.digits_lt

theorem magnitude_eq_zero_iff : a.magnitude fmt = 0 ↔ a.digits = [] :=
  ofDigits_eq_zero_iff fmt.one_lt_base valid.digits_lt valid.canonical

theorem magnitude_pos (negative : a.sign = .neg) : 0 < a.magnitude fmt := by
  rw [pos_iff_ne_zero, Ne, valid.magnitude_eq_zero_iff]
  intro zero
  rw [valid.zero_zpos zero] at negative
  cases negative

theorem toInt_neg_iff : a.toInt fmt < 0 ↔ a.sign = .neg := by
  cases sign : a.sign with
  | zpos => simp [toInt_zpos sign]
  | neg =>
    have positive := valid.magnitude_pos sign
    rw [toInt_neg sign]
    simpa using positive

theorem toInt_eq_zero_iff : a.toInt fmt = 0 ↔ a.digits = [] := by
  rw [← valid.magnitude_eq_zero_iff]
  cases sign : a.sign with
  | zpos => rw [toInt_zpos sign, natCast_eq_zero]
  | neg => rw [toInt_neg sign, neg_eq_zero, natCast_eq_zero]

omit valid in
theorem natAbs_toInt : (a.toInt fmt).natAbs = a.magnitude fmt := by
  cases sign : a.sign with
  | zpos => rw [toInt_zpos sign, natAbs_natCast]
  | neg => rw [toInt_neg sign, natAbs_neg, natAbs_natCast]

end Valid

end MpInt

@[simp]
theorem mpGrow_digits : (mpGrow a size).digits = a.digits := by
  unfold mpGrow
  split <;> rfl

@[simp]
theorem mpGrow_sign : (mpGrow a size).sign = a.sign := by
  unfold mpGrow
  split <;> rfl

theorem le_alloc_mpGrow : size ≤ (mpGrow a size).alloc := by
  unfold mpGrow
  split
  · exact Nat.le_add_right _ _
  · exact not_lt.mp ‹_›

theorem alloc_le_alloc_mpGrow : a.alloc ≤ (mpGrow a size).alloc := by
  unfold mpGrow
  split
  · exact (le_of_lt ‹_›).trans (Nat.le_add_right _ _)
  · exact le_rfl

theorem valid_mpInit : mpInit.Valid fmt where
  digits_lt := fun _ impossible => nomatch impossible
  canonical := fun nonempty => absurd rfl nonempty
  zero_zpos := fun _ => rfl
  used_le_alloc := zero_le _
  alloc_pos := by decide

@[simp]
theorem toInt_mpInit : mpInit.toInt fmt = 0 := by
  simp [mpInit, MpInt.toInt, MpInt.magnitude]

theorem valid_mpCopy (valid : a.Valid fmt) (positive : 0 < b.alloc) : (mpCopy a b).Valid fmt where
  digits_lt := valid.digits_lt
  canonical := valid.canonical
  zero_zpos := valid.zero_zpos
  used_le_alloc := le_alloc_mpGrow a.used
  alloc_pos := positive.trans_le (alloc_le_alloc_mpGrow a.used)

@[simp]
theorem toInt_mpCopy : (mpCopy a b).toInt fmt = a.toInt fmt :=
  rfl

/-- A number for an integer. -/
def MpInt.ofInt (fmt : DigitFormat) (value : Int) : MpInt where
  sign := if value < 0 then .neg else .zpos
  digits := Nat.digits fmt.base value.natAbs
  alloc := max mpPrec (Nat.digits fmt.base value.natAbs).length

@[simp]
theorem MpInt.toInt_ofInt (value : Int) : (MpInt.ofInt fmt value).toInt fmt = value := by
  have magnitude : (MpInt.ofInt fmt value).magnitude fmt = value.natAbs := ofDigits_digits _ _
  by_cases negative : value < 0
  · rw [MpInt.toInt_neg (if_pos negative), magnitude]
    omega
  · rw [MpInt.toInt_zpos (if_neg negative), magnitude]
    omega

theorem MpInt.valid_ofInt (value : Int) : (MpInt.ofInt fmt value).Valid fmt where
  digits_lt := fun _ member => digits_lt_base fmt.one_lt_base member
  canonical := fun nonempty =>
    getLast_digit_ne_zero _ (digits_ne_nil_iff_ne_zero.mp nonempty)
  zero_zpos := by
    intro none
    have zero : value.natAbs = 0 := digits_eq_nil_iff_eq_zero.mp none
    exact if_neg (by omega)
  used_le_alloc := Nat.le_max_right _ _
  alloc_pos := (by decide : 0 < mpPrec).trans_le (Nat.le_max_left _ _)

/-- An object for an integer. -/
def P6bigint.ofInt (fmt : DigitFormat) (value : Int) : P6bigint fmt :=
  ⟨MpInt.ofInt fmt value, MpInt.valid_ofInt value⟩

@[simp]
theorem P6bigint.toInt_ofInt (value : Int) : (P6bigint.ofInt fmt value).toInt = value :=
  MpInt.toInt_ofInt value

theorem valid_mpClamp (digitsLt : ∀ digit ∈ a.digits, digit < fmt.base)
    (allocated : a.used ≤ a.alloc) (positive : 0 < a.alloc) : (mpClamp a).Valid fmt where
  digits_lt := fun digit member => digitsLt digit (mem_of_mem_clamp member)
  canonical := canonical_clamp a.digits
  zero_zpos := by
    intro zero
    exact if_pos (List.length_eq_zero_iff.mpr zero)
  used_le_alloc := (length_clamp_le a.digits).trans allocated
  alloc_pos := positive

@[simp]
theorem magnitude_mpClamp : (mpClamp a).magnitude fmt = a.magnitude fmt :=
  ofDigits_clamp fmt.base a.digits

@[simp]
theorem toInt_mpClamp : (mpClamp a).toInt fmt = a.toInt fmt := by
  by_cases zero : (clamp a.digits).length = 0
  · have none : clamp a.digits = [] := List.length_eq_zero_iff.mp zero
    have nothing : a.magnitude fmt = 0 := by
      rw [← magnitude_mpClamp, MpInt.magnitude, mpClamp, none, ofDigits_nil]
    rw [MpInt.toInt_zpos (if_pos zero), magnitude_mpClamp, MpInt.toInt]
    cases a.sign <;> simp [nothing]
  · have same : (mpClamp a).sign = a.sign := if_neg zero
    rw [MpInt.toInt, same, magnitude_mpClamp, MpInt.toInt]

@[simp]
theorem toInt_mpNeg : (mpNeg a).toInt fmt = -a.toInt fmt := by
  unfold mpNeg
  split
  · cases sign : a.sign <;> simp [MpInt.toInt, MpInt.magnitude, sign]
  · have none : a.digits = [] := List.length_eq_zero_iff.mp (not_not.mp ‹_›)
    cases sign : a.sign <;> simp [MpInt.toInt, MpInt.magnitude, sign, none]

theorem valid_mpSet (positive : 0 < a.alloc) (digit : Nat) : (mpSet fmt a digit).Valid fmt := by
  unfold mpSet mpZero
  by_cases zero : digit % fmt.base = 0
  · refine ⟨?_, ?_, fun _ => rfl, ?_, positive⟩ <;> simp [zero, Canonical, MpInt.used]
  have below := mod_lt digit fmt.base_pos
  refine ⟨?_, ?_, fun _ => rfl, ?_, positive⟩
  · simpa [zero] using below
  · simp [zero, Canonical]
  · simpa [zero, MpInt.used] using succ_le_of_lt positive

theorem toInt_mpSet (digit : Nat) : (mpSet fmt a digit).toInt fmt = (digit % fmt.base : Nat) := by
  unfold mpSet mpZero
  by_cases zero : digit % fmt.base = 0
  · simp [zero, MpInt.toInt, MpInt.magnitude]
  · simp [zero, MpInt.toInt, MpInt.magnitude]

variable (fmt) in
theorem MpInt.magnitude_of_used_le_one (single : a.used ≤ 1) : a.magnitude fmt = a.lowest := by
  unfold MpInt.used at single
  unfold MpInt.magnitude MpInt.lowest
  match a.digits, single with
  | [], _ => rfl
  | [digit], _ => exact ofDigits_singleton

theorem MpInt.Valid.base_le_magnitude (valid : a.Valid fmt) (several : 1 < a.used) :
    fmt.base ≤ a.magnitude fmt := by
  have nonempty : a.digits ≠ [] := by
    intro none
    rw [MpInt.used, none] at several
    exact absurd several (by decide)
  have lower := pow_le_ofDigits fmt.one_lt_base nonempty valid.digits_lt valid.canonical
  calc
    fmt.base = fmt.base ^ 1 := (pow_one _).symm
    _ ≤ fmt.base ^ (a.used - 1) := Nat.pow_le_pow_right fmt.base_pos (le_sub_of_add_le several)
    _ ≤ a.magnitude fmt := lower

theorem mpCmpD_eq_compare (valid : a.Valid fmt) {digit : Nat} (below : digit < fmt.base) :
    mpCmpD a digit = compare (a.toInt fmt) digit := by
  unfold mpCmpD
  cases sign : a.sign with
  | neg =>
    have negative := valid.toInt_neg_iff.mpr sign
    rw [if_pos rfl]
    exact (compare_lt_iff_lt.mpr (negative.trans_le (natCast_nonneg digit))).symm
  | zpos =>
    rw [if_neg (by decide), MpInt.toInt_zpos sign]
    by_cases several : 1 < a.used
    · have large := valid.base_le_magnitude several
      rw [if_pos several]
      exact (compare_gt_iff_gt.mpr (Int.ofNat_lt.mpr (below.trans_le large))).symm
    have single := MpInt.magnitude_of_used_le_one fmt (not_lt.mp several)
    rw [if_neg several, single]
    rcases lt_trichotomy digit a.lowest with less | same | greater
    · rw [if_pos less]
      exact (compare_gt_iff_gt.mpr (Int.ofNat_lt.mpr less)).symm
    · rw [if_neg same.not_lt, if_neg same.not_gt]
      exact (compare_eq_iff_eq.mpr (by rw [same])).symm
    · rw [if_neg greater.not_gt, if_pos greater]
      exact (compare_lt_iff_lt.mpr (Int.ofNat_lt.mpr greater)).symm

end RakudoStar.Bigint
