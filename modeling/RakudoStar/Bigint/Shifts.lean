import RakudoStar.Bigint.SingleDigit

/-!
# Shifts

`mp_mul_2d` and `mp_div_2d`: whole digits are moved first, then the bits that are left.
The count is an `int`; C divides it towards zero.
-/

namespace RakudoStar.Bigint

open Digits List Nat

variable (fmt : DigitFormat)

def mpRshd (a : MpInt) (b : Int) : MpInt :=
  if b ≤ 0 then a
  else if (a.used : Int) ≤ b then mpZero a
  else { a with digits := a.digits.drop b.toNat }

def mpLshd (a : MpInt) (b : Int) : MpInt :=
  if b ≤ 0 then a
  else { mpGrow a (a.used + b.toNat) with digits := List.replicate b.toNat 0 ++ a.digits }

/-- One round of the loop of `mp_mul_2d`. -/
def mul2dStep (d r digit : Nat) : Nat × Nat :=
  (((digit <<< d) ||| r) &&& fmt.mpMask, (digit >>> (fmt.digitBit - d)) &&& (2 ^ d - 1))

/-- One round of the loop of `mp_div_2d`. -/
def div2dStep (D r digit : Nat) : Nat × Nat :=
  ((digit >>> D) ||| (r <<< (fmt.digitBit - D)), digit &&& (2 ^ D - 1))

/-- The loop of `mp_mul_2d`, with the digit of the final carry. -/
def mul2dDigits (d : Nat) (digits : List Nat) : List Nat :=
  let columns := ascend (mul2dStep fmt d) 0 digits
  if columns.2 ≠ 0 then columns.1 ++ [columns.2] else columns.1

/-- `mp_mul_2d`. A negative remainder becomes a count that no word can be shifted by. -/
def mpMul2d (a : MpInt) (b : Int) (c : MpInt) : Except Fault MpInt :=
  let c := mpCopy a c
  let c := mpGrow c (c.used + b.tdiv fmt.digitBit + 1).toNat
  let c := if (fmt.digitBit : Int) ≤ b then mpLshd c (b.tdiv fmt.digitBit) else c
  let d := b.tmod fmt.digitBit
  if d < 0 then .error .shiftCount
  else if d ≠ 0 then .ok (mpClamp { c with digits := mul2dDigits fmt d.toNat c.digits })
  else .ok (mpClamp c)

/-- `mp_div_2d` without a remainder. -/
def mpDiv2d (a : MpInt) (b : Int) (c : MpInt) : MpInt :=
  if b ≤ 0 then mpCopy a c
  else
    let c := mpCopy a c
    let c := if (fmt.digitBit : Int) ≤ b then mpRshd c (b.tdiv fmt.digitBit) else c
    let D := b.tmod fmt.digitBit
    mpClamp { c with
      digits := if D ≠ 0 then (descend (div2dStep fmt D.toNat) 0 c.digits).1 else c.digits }

/-- One round of the loop of `mp_set_int`: four bits more. -/
def setIntRound (a : MpInt) (nibble : Nat) : Except Fault MpInt := do
  let a ← mpMul2d fmt a 4 a
  .ok { a with
    digits := match a.digits with
      | [] => [nibble]
      | lowest :: digits => (lowest ||| nibble) :: digits ++ [0] }

def mpSetInt (a : MpInt) (b : Nat) : Except Fault MpInt := do
  let nibbles := (List.range 8).map fun x => ((b <<< (4 * x)) >>> 28) &&& 15
  let a ← nibbles.foldlM (setIntRound fmt) (mpZero a)
  .ok (mpClamp a)

variable {fmt} {a c : MpInt} {d : Nat} {b : Int} (whole : Nat)

theorem multiplies_mul2dStep (below : d < fmt.digitBit) :
    Multiplies fmt.base (2 ^ d) (· < 2 ^ d) (mul2dStep fmt d) where
  value := by
    intro r digit rLt digitLt
    have split : fmt.base = 2 ^ d * 2 ^ (fmt.digitBit - d) := by
      rw [← pow_add, Nat.add_sub_cancel' below.le, DigitFormat.base]
    have high : digit / 2 ^ (fmt.digitBit - d) < 2 ^ d := by
      rw [div_lt_iff_lt_mul (Nat.two_pow_pos _), ← split]
      exact digitLt
    have carried : (digit * 2 ^ d + r) / fmt.base = digit / 2 ^ (fmt.digitBit - d) := by
      rw [split, ← Nat.div_div_eq_div_mul, add_comm, add_mul_div_right _ _
        (Nat.two_pow_pos d), div_eq_of_lt rLt, zero_add]
    simp only [mul2dStep, DigitFormat.and_mpMask, and_two_pow_sub_one_eq_mod]
    rw [← shiftLeft_add_eq_or_of_lt rLt, shiftLeft_eq, shiftRight_eq_div_pow,
      mod_eq_of_lt high, ← carried, mod_add_div, mul_comm]
  digit_lt := by
    intro r digit _ _
    simp only [mul2dStep, DigitFormat.and_mpMask]
    exact mod_lt _ fmt.base_pos
  carry := by
    intro r digit _ _
    simp only [mul2dStep, and_two_pow_sub_one_eq_mod]
    exact mod_lt _ (Nat.two_pow_pos d)

theorem divides_div2dStep (below : d < fmt.digitBit) :
    Divides fmt.base (2 ^ d) (div2dStep fmt d) := by
  have split : fmt.base = 2 ^ (fmt.digitBit - d) * 2 ^ d := by
    rw [← pow_add, Nat.sub_add_cancel below.le, DigitFormat.base]
  have written : ∀ {r digit : Nat}, digit < fmt.base → div2dStep fmt d r digit =
        (r * 2 ^ (fmt.digitBit - d) + digit / 2 ^ d, digit % 2 ^ d) := by
    intro r digit digitLt
    have low : digit / 2 ^ d < 2 ^ (fmt.digitBit - d) := by
      rw [div_lt_iff_lt_mul (Nat.two_pow_pos _), ← split]
      exact digitLt
    simp only [div2dStep, and_two_pow_sub_one_eq_mod]
    rw [shiftRight_eq_div_pow, lor_comm, ← shiftLeft_add_eq_or_of_lt low, shiftLeft_eq]
  refine ⟨?_, ?_, ?_⟩
  · intro r digit _ digitLt
    rw [written digitLt]
    calc
      2 ^ d * (r * 2 ^ (fmt.digitBit - d) + digit / 2 ^ d) + digit % 2 ^ d =
          2 ^ (fmt.digitBit - d) * 2 ^ d * r + (2 ^ d * (digit / 2 ^ d) + digit % 2 ^ d) := by
        ring
      _ = fmt.base * r + digit := by rw [← split, div_add_mod]
  · intro r digit rLt digitLt
    have low : digit / 2 ^ d < 2 ^ (fmt.digitBit - d) := by
      rw [div_lt_iff_lt_mul (Nat.two_pow_pos _), ← split]
      exact digitLt
    rw [written digitLt]
    calc
      r * 2 ^ (fmt.digitBit - d) + digit / 2 ^ d <
          r * 2 ^ (fmt.digitBit - d) + 2 ^ (fmt.digitBit - d) := Nat.add_lt_add_left low _
      _ = (r + 1) * 2 ^ (fmt.digitBit - d) := by ring
      _ ≤ 2 ^ d * 2 ^ (fmt.digitBit - d) := Nat.mul_le_mul_right _ rLt
      _ = fmt.base := by rw [split, mul_comm]
  · intro r digit _ digitLt
    rw [written digitLt]
    exact mod_lt _ (Nat.two_pow_pos d)

theorem mul2dDigits_spec (below : d < fmt.digitBit) {digits : List Nat}
    (digitsLt : ∀ digit ∈ digits, digit < fmt.base) :
    Nat.ofDigits fmt.base (mul2dDigits fmt d digits) = 2 ^ d * Nat.ofDigits fmt.base digits ∧
      (∀ digit ∈ mul2dDigits fmt d digits, digit < fmt.base) ∧
      (mul2dDigits fmt d digits).length ≤ digits.length + 1 := by
  have multiplies := multiplies_mul2dStep below
  have value := multiplies.ascend_value (Nat.two_pow_pos d) digitsLt
  have written := multiplies.ascend_lt (Nat.two_pow_pos d) digitsLt
  have carry := multiplies.ascend_carry (Nat.two_pow_pos d) digitsLt
  have carryLt : (ascend (mul2dStep fmt d) 0 digits).2 < fmt.base :=
    carry.trans (Nat.pow_lt_pow_right (by decide) below)
  rw [add_zero] at value
  unfold mul2dDigits
  by_cases some : (ascend (mul2dStep fmt d) 0 digits).2 = 0
  · rw [some, Nat.mul_zero, add_zero] at value
    rw [if_neg (not_not.mpr some)]
    refine ⟨value, written, ?_⟩
    rw [length_ascend]
    exact Nat.le_add_right _ 1
  rw [if_pos some]
  refine ⟨?_, digits_lt_append_carry fmt written carryLt, ?_⟩
  · rw [ofDigits_append, ofDigits_singleton, length_ascend, value]
  · rw [length_append, length_ascend, length_singleton]

theorem tdiv_natCast (b : Nat) : (b : Int).tdiv fmt.digitBit = ((b / fmt.digitBit : Nat) : Int) :=
  rfl

theorem tmod_natCast (b : Nat) : (b : Int).tmod fmt.digitBit = ((b % fmt.digitBit : Nat) : Int) :=
  rfl

theorem digitBit_pos (fmt : DigitFormat) : 0 < fmt.digitBit :=
  (by decide : 0 < 7).trans_le fmt.seven_le_digitBit

theorem base_pow_mul_two_pow (fmt : DigitFormat) (b : Nat) :
    fmt.base ^ (b / fmt.digitBit) * 2 ^ (b % fmt.digitBit) = 2 ^ b := by
  rw [DigitFormat.base, ← pow_mul, ← pow_add, div_add_mod]

theorem mpLshd_spec (digitsLt : ∀ digit ∈ a.digits, digit < fmt.base)
    (allocated : a.used + whole + 1 ≤ a.alloc) :
    (mpLshd a whole).magnitude fmt = fmt.base ^ whole * a.magnitude fmt ∧
      (∀ digit ∈ (mpLshd a whole).digits, digit < fmt.base) ∧ (mpLshd a whole).sign = a.sign ∧
      (mpLshd a whole).used + 1 ≤ (mpLshd a whole).alloc := by
  unfold mpLshd
  rcases Nat.eq_zero_or_pos whole with rfl | positive
  · rw [if_pos (by exact Int.le_refl 0), Nat.pow_zero, Nat.one_mul]
    exact ⟨rfl, digitsLt, rfl, allocated⟩
  rw [if_neg (by omega), Int.toNat_natCast]
  refine ⟨?_, ?_, mpGrow_sign _, ?_⟩
  · rw [MpInt.magnitude, ofDigits_append, ofDigits_replicate_zero,
      length_replicate, zero_add, MpInt.magnitude]
  · intro digit member
    rcases mem_append.mp member with zero | member
    · rw [eq_of_mem_replicate zero]
      exact fmt.base_pos
    · exact digitsLt digit member
  have kept := alloc_le_alloc_mpGrow (a := a) (a.used + whole)
  change (replicate whole 0 ++ a.digits).length + 1 ≤ _
  rw [length_append, length_replicate]
  unfold MpInt.used at allocated
  exact (by omega : whole + a.digits.length + 1 ≤ a.alloc).trans kept

theorem mpMul2d_spec (digitsLt : ∀ digit ∈ a.digits, digit < fmt.base) (b : Nat) :
    ∃ result, mpMul2d fmt a b c = .ok result ∧ result.Valid fmt ∧
      result.toInt fmt = a.toInt fmt * 2 ^ b := by
  obtain ⟨grown, grownEq⟩ : ∃ grown, mpGrow (mpCopy a c)
      ((mpCopy a c).used + (b : Int).tdiv fmt.digitBit + 1).toNat = grown := ⟨_, rfl⟩
  have grownDigits : grown.digits = a.digits := by
    rw [← grownEq, mpGrow_digits]
    rfl
  have grownSign : grown.sign = a.sign := by
    rw [← grownEq, mpGrow_sign]
    rfl
  have room : grown.used + b / fmt.digitBit + 1 ≤ grown.alloc := by
    have enough := le_alloc_mpGrow (a := mpCopy a c)
      ((mpCopy a c).used + (b : Int).tdiv fmt.digitBit + 1).toNat
    rw [grownEq, tdiv_natCast] at enough
    have same : (mpCopy a c).used = grown.used := by
      rw [MpInt.used, MpInt.used, grownDigits]
      rfl
    rw [same] at enough
    omega
  have grownLt : ∀ digit ∈ grown.digits, digit < fmt.base := by
    rw [grownDigits]
    exact digitsLt
  obtain ⟨moved, movedEq⟩ : ∃ moved, mpLshd grown ((b / fmt.digitBit : Nat) : Int) = moved :=
    ⟨_, rfl⟩
  obtain ⟨movedValue, movedLt, movedSign, movedRoom⟩ := mpLshd_spec (b / fmt.digitBit) grownLt room
  rw [movedEq] at movedValue movedLt movedSign movedRoom
  have whole : (if (fmt.digitBit : Int) ≤ (b : Int) then
      mpLshd grown ((b : Int).tdiv fmt.digitBit) else grown) = moved := by
    split
    · exact movedEq
    have none : b / fmt.digitBit = 0 := div_eq_of_lt (by omega)
    rw [← movedEq, none]
    rfl
  have movedMagnitude : moved.magnitude fmt = fmt.base ^ (b / fmt.digitBit) * a.magnitude fmt := by
    rw [movedValue, MpInt.magnitude, grownDigits, MpInt.magnitude]
  -- the number from its magnitude and sign
  have finish : ∀ shifted : MpInt, shifted.sign = a.sign →
      shifted.magnitude fmt = 2 ^ b * a.magnitude fmt →
      (mpClamp shifted).toInt fmt = a.toInt fmt * 2 ^ b := by
    intro shifted sign magnitude
    rw [toInt_mpClamp, MpInt.toInt, MpInt.toInt, sign, magnitude]
    cases a.sign <;> push_cast <;> ring
  have movedPos : 0 < moved.alloc := (succ_pos _).trans_le movedRoom
  unfold mpMul2d
  simp only [grownEq, whole, tmod_natCast]
  rw [if_neg (by omega)]
  by_cases some : b % fmt.digitBit = 0
  · rw [if_neg (by rw [some]; decide)]
    refine ⟨_, rfl, valid_mpClamp movedLt ((Nat.le_add_right _ 1).trans movedRoom) movedPos,
      finish moved (movedSign.trans grownSign) ?_⟩
    rw [movedMagnitude, ← base_pow_mul_two_pow fmt b, some, pow_zero, mul_one]
  obtain ⟨value, written, length⟩ := mul2dDigits_spec (mod_lt b (digitBit_pos fmt)) movedLt
  rw [if_pos (by omega), Int.toNat_natCast]
  refine ⟨_, rfl, valid_mpClamp written (length.trans movedRoom) movedPos,
    finish _ (movedSign.trans grownSign) ?_⟩
  rw [MpInt.magnitude, value, ← MpInt.magnitude, movedMagnitude, ← base_pow_mul_two_pow fmt b]
  ring

theorem mpMul2d_of_neg (valid : a.Valid fmt) (positive : 0 < c.alloc) (negative : b < 0) :
    if (fmt.digitBit : Int) ∣ b then
      ∃ result, mpMul2d fmt a b c = .ok result ∧ result.Valid fmt ∧ result.toInt fmt = a.toInt fmt
    else mpMul2d fmt a b c = .error .shiftCount := by
  have small : ¬ (fmt.digitBit : Int) ≤ b := by omega
  have remainder : b.tmod fmt.digitBit ≤ 0 := by
    have opposite := Int.tmod_nonneg fmt.digitBit (neg_nonneg_of_nonpos negative.le)
    rw [Int.neg_tmod] at opposite
    omega
  unfold mpMul2d
  simp only [if_neg small]
  by_cases divides : (fmt.digitBit : Int) ∣ b
  · have none : b.tmod fmt.digitBit = 0 := Int.tmod_eq_zero_of_dvd divides
    have copied := valid_mpCopy valid positive
    rw [if_pos divides, none, if_neg (lt_irrefl 0), if_neg (not_not.mpr rfl)]
    refine ⟨_, rfl, valid_mpClamp ?_ ?_ ?_, ?_⟩
    · rw [mpGrow_digits]
      exact copied.digits_lt
    · rw [MpInt.used, mpGrow_digits]
      exact copied.used_le_alloc.trans (alloc_le_alloc_mpGrow _)
    · exact copied.alloc_pos.trans_le (alloc_le_alloc_mpGrow _)
    · rw [toInt_mpClamp, MpInt.toInt, MpInt.toInt, MpInt.magnitude, mpGrow_digits, mpGrow_sign]
      rfl
  · have some : b.tmod fmt.digitBit ≠ 0 := fun none =>
      divides (Int.dvd_of_tmod_eq_zero none)
    rw [if_neg divides, if_pos (by omega)]

theorem mpRshd_spec (digitsLt : ∀ digit ∈ a.digits, digit < fmt.base)
    (allocated : a.used ≤ a.alloc) :
    (mpRshd a whole).magnitude fmt = a.magnitude fmt / fmt.base ^ whole ∧
      (∀ digit ∈ (mpRshd a whole).digits, digit < fmt.base) ∧
      ((mpRshd a whole).digits = [] ∨ (mpRshd a whole).sign = a.sign) ∧
      (mpRshd a whole).used ≤ (mpRshd a whole).alloc ∧ (mpRshd a whole).alloc = a.alloc := by
  have dropped : a.magnitude fmt / fmt.base ^ whole = Nat.ofDigits fmt.base (a.digits.drop whole) :=
    ofDigits_div_pow_eq_ofDigits_drop whole fmt.base_pos a.digits digitsLt
  unfold mpRshd
  rcases Nat.eq_zero_or_pos whole with rfl | positive
  · rw [if_pos (by exact Int.le_refl 0), Nat.pow_zero, Nat.div_one]
    exact ⟨rfl, digitsLt, .inr rfl, allocated, rfl⟩
  rw [if_neg (by omega), Int.toNat_natCast, dropped]
  split
  · have all : a.digits.drop whole = [] := drop_eq_nil_of_le (by unfold MpInt.used at *; omega)
    rw [all]
    exact ⟨rfl, fun _ impossible => (nomatch impossible), .inl rfl, zero_le _, rfl⟩
  refine ⟨rfl, fun digit member => digitsLt digit (mem_of_mem_drop member), .inr rfl, ?_, rfl⟩
  unfold MpInt.used at allocated
  change (a.digits.drop whole).length ≤ a.alloc
  rw [length_drop]
  exact (sub_le _ _).trans allocated

theorem toInt_eq_tdiv {shifted : MpInt} {divisor : Nat}
    (sign : shifted.digits = [] ∨ shifted.sign = a.sign)
    (magnitude : shifted.magnitude fmt = a.magnitude fmt / divisor) :
    shifted.toInt fmt = (a.toInt fmt).tdiv divisor := by
  have quotient : ((a.magnitude fmt : Nat) : Int).tdiv divisor =
      ((a.magnitude fmt / divisor : Nat) : Int) := rfl
  have signed : shifted.toInt fmt = if a.sign = .neg then -(shifted.magnitude fmt : Int)
      else shifted.magnitude fmt := by
    rcases sign with none | same
    · rw [MpInt.toInt, MpInt.magnitude, none]
      cases shifted.sign <;> simp
    · rw [MpInt.toInt, same]
      cases a.sign <;> rfl
  rw [signed, magnitude]
  cases negative : a.sign with
  | zpos =>
    rw [if_neg (by decide), MpInt.toInt_zpos negative, quotient]
  | neg =>
    rw [if_pos rfl, MpInt.toInt_neg negative, Int.neg_tdiv, quotient]

theorem mpDiv2d_spec (valid : a.Valid fmt) (positive : 0 < c.alloc) (b : Nat) :
    (mpDiv2d fmt a b c).Valid fmt ∧
      (mpDiv2d fmt a b c).toInt fmt = (a.toInt fmt).tdiv (2 ^ b : Nat) := by
  have copied := valid_mpCopy valid positive
  unfold mpDiv2d
  rcases Nat.eq_zero_or_pos b with rfl | counted
  · rw [if_pos (by exact Int.le_refl 0), Nat.pow_zero, toInt_mpCopy]
    exact ⟨copied, (Int.tdiv_one _).symm⟩
  rw [if_neg (by omega)]
  obtain ⟨moved, movedEq⟩ : ∃ moved,
      mpRshd (mpCopy a c) ((b / fmt.digitBit : Nat) : Int) = moved := ⟨_, rfl⟩
  obtain ⟨movedValue, movedLt, movedSign, movedUsed, movedAlloc⟩ :=
    mpRshd_spec (b / fmt.digitBit) copied.digits_lt copied.used_le_alloc
  rw [movedEq] at movedValue movedLt movedSign movedUsed movedAlloc
  have movedPos : 0 < moved.alloc := by
    rw [movedAlloc]
    exact copied.alloc_pos
  have whole : (if (fmt.digitBit : Int) ≤ (b : Int) then
      mpRshd (mpCopy a c) ((b : Int).tdiv fmt.digitBit) else mpCopy a c) = moved := by
    split
    · exact movedEq
    have none : b / fmt.digitBit = 0 := div_eq_of_lt (by omega)
    rw [← movedEq, none]
    rfl
  have total : a.magnitude fmt / fmt.base ^ (b / fmt.digitBit) / 2 ^ (b % fmt.digitBit) =
      a.magnitude fmt / (2 ^ b : Nat) := by
    rw [Nat.div_div_eq_div_mul, base_pow_mul_two_pow]
  simp only [whole, tmod_natCast]
  by_cases some : b % fmt.digitBit = 0
  · rw [some, Nat.pow_zero, Nat.div_one] at total
    rw [if_neg (by rw [some]; decide)]
    refine ⟨valid_mpClamp movedLt movedUsed movedPos, ?_⟩
    rw [toInt_mpClamp]
    exact toInt_eq_tdiv movedSign (movedValue.trans total)
  have divides := divides_div2dStep (mod_lt b (digitBit_pos fmt))
  obtain ⟨_, _, written⟩ := divides.descend_value (Nat.two_pow_pos _) movedLt
  have value := divides.ofDigits_descend (Nat.two_pow_pos _) movedLt
  rw [if_pos (by omega), Int.toNat_natCast]
  refine ⟨valid_mpClamp written ?_ movedPos, ?_⟩
  · rw [MpInt.used, length_descend]
    exact movedUsed
  rw [toInt_mpClamp]
  refine toInt_eq_tdiv (movedSign.imp_left fun none => ?_) ?_
  · rw [none]
    rfl
  · rw [MpInt.magnitude, value, ← total]
    exact congrArg (· / 2 ^ (b % fmt.digitBit)) movedValue

theorem mpDiv2d_of_nonpos (valid : a.Valid fmt) (positive : 0 < c.alloc) (nonpositive : b ≤ 0) :
    (mpDiv2d fmt a b c).Valid fmt ∧ (mpDiv2d fmt a b c).toInt fmt = a.toInt fmt := by
  rw [mpDiv2d, if_pos nonpositive]
  exact ⟨valid_mpCopy valid positive, toInt_mpCopy⟩

/-- A number without digits, or with the zero that a round of `mp_set_int` leaves. -/
def Blank (a : MpInt) : Prop :=
  a.sign = .zpos ∧ (a.digits = [] ∨ a.digits = [0])

variable (fmt) in
theorem setIntRound_of_blank (blank : Blank a) (nibble : Nat) :
    ∃ result, setIntRound fmt a nibble = .ok result ∧ result.sign = .zpos ∧
      result.digits = [nibble] ∧ 0 < result.alloc := by
  have zero : a.magnitude fmt = 0 := by
    rcases blank.2 with none | zero
    · rw [MpInt.magnitude, none, ofDigits_nil]
    · rw [MpInt.magnitude, zero, ofDigits_singleton]
  have digitsLt : ∀ digit ∈ a.digits, digit < fmt.base := by
    intro digit member
    rcases blank.2 with none | zero
    · rw [none] at member
      cases member
    rw [zero] at member
    rw [mem_singleton.mp member]
    exact fmt.base_pos
  obtain ⟨shifted, ran, valid, means⟩ := mpMul2d_spec (c := a) digitsLt 4
  rw [MpInt.toInt_zpos blank.1, zero, Int.ofNat_zero, Int.zero_mul] at means
  have none : shifted.digits = [] := valid.toInt_eq_zero_iff.mp means
  refine ⟨{ shifted with digits := [nibble] }, ?_, valid.zero_zpos none, rfl, valid.alloc_pos⟩
  have run : mpMul2d fmt a 4 a = .ok shifted := ran
  rw [setIntRound, run, Except.ok_bind, none]

variable (fmt a) in
theorem mpSetInt_one :
    ∃ result, mpSetInt fmt a 1 = .ok result ∧ result.Valid fmt ∧ result.toInt fmt = 1 := by
  have rounds : ∀ (count : Nat) (start : MpInt), Blank start → ∃ result,
      (replicate count 0).foldlM (setIntRound fmt) start = .ok result ∧ Blank result := by
    intro count
    induction count with
    | zero => exact fun start blank => ⟨start, rfl, blank⟩
    | succ count ih =>
      intro start blank
      obtain ⟨next, ran, sign, digits, _⟩ := setIntRound_of_blank fmt blank 0
      obtain ⟨result, rest, ends⟩ := ih next ⟨sign, .inr digits⟩
      refine ⟨result, ?_, ends⟩
      rw [replicate_succ, foldlM_cons, ran, Except.ok_bind, rest]
  have nibbles : ((range 8).map fun x => ((1 <<< (4 * x)) >>> 28) &&& 15) =
      replicate 7 0 ++ [1] := by decide
  obtain ⟨blank, ran, isBlank⟩ := rounds 7 (mpZero a) ⟨rfl, .inl rfl⟩
  obtain ⟨last, ranLast, sign, digits, allocated⟩ := setIntRound_of_blank fmt isBlank 1
  refine ⟨mpClamp last, ?_, valid_mpClamp ?_ ?_ allocated, ?_⟩
  · rw [mpSetInt, nibbles, foldlM_append, ran, Except.ok_bind, foldlM_cons, ranLast]
    rfl
  · rw [digits]
    intro digit member
    rw [mem_singleton.mp member]
    exact fmt.one_lt_base
  · rw [MpInt.used, digits]
    exact allocated
  · rw [toInt_mpClamp, MpInt.toInt_zpos sign, MpInt.magnitude, digits, ofDigits_singleton]
    rfl

end RakudoStar.Bigint
