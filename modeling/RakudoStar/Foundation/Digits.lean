import Mathlib.Data.List.DropRight
import Mathlib.Data.Nat.Bitwise
import Mathlib.Data.Nat.Digits.Lemmas

/-!
# Lists of digits

Numbers as lists of digits in a base that is a power of two, the lowest first. Loops with a
carry compute the operation of their step, and bitwise operations go digit by digit.
-/

namespace RakudoStar.Digits

open List Nat

/-- Rewrites the digits from the lowest on. The result is the new digits and the last
carry. -/
def ascend (step : Nat → Nat → Nat × Nat) (carry : Nat) : List Nat → List Nat × Nat
  | [] => ([], carry)
  | digit :: digits =>
    let written := step carry digit
    let rest := ascend step written.2 digits
    (written.1 :: rest.1, rest.2)

/-- Rewrites the digits from the highest on. -/
def descend (step : Nat → Nat → Nat × Nat) (carry : Nat) : List Nat → List Nat × Nat
  | [] => ([], carry)
  | digit :: digits =>
    let rest := descend step carry digits
    let written := step rest.2 digit
    (written.1 :: rest.1, written.2)

variable (step : Nat → Nat → Nat × Nat) (carry : Nat)

@[simp]
theorem length_ascend (digits : List Nat) :
    (ascend step carry digits).1.length = digits.length := by
  induction digits generalizing carry with
  | nil => rfl
  | cons digit digits ih =>
    simp only [ascend, length_cons, ih]

@[simp]
theorem length_descend (digits : List Nat) :
    (descend step carry digits).1.length = digits.length := by
  induction digits with
  | nil => rfl
  | cons digit digits ih =>
    simp only [descend, length_cons, ih]

/-- A step from low to high that multiplies a digit by a factor and adds the carry. -/
structure Multiplies (base factor : Nat) (Carry : Nat → Prop)
    (step : Nat → Nat → Nat × Nat) : Prop where
  value : ∀ {carry digit}, Carry carry → digit < base →
    (step carry digit).1 + base * (step carry digit).2 = factor * digit + carry
  digit_lt : ∀ {carry digit}, Carry carry → digit < base → (step carry digit).1 < base
  carry : ∀ {carry digit}, Carry carry → digit < base → Carry (step carry digit).2

namespace Multiplies

variable {base factor carry : Nat} {Carry : Nat → Prop} {step : Nat → Nat → Nat × Nat}
  {digits : List Nat}

section
variable (multiplies : Multiplies base factor Carry step)
include multiplies

theorem ascend_carry (allowed : Carry carry) (proper : ∀ digit ∈ digits, digit < base) :
    Carry (ascend step carry digits).2 := by
  induction digits generalizing carry with
  | nil => exact allowed
  | cons digit digits ih =>
    have first := proper digit mem_cons_self
    exact ih (multiplies.carry allowed first) (forall_mem_cons.mp proper).2

theorem ascend_lt (allowed : Carry carry) (proper : ∀ digit ∈ digits, digit < base) :
    ∀ digit ∈ (ascend step carry digits).1, digit < base := by
  induction digits generalizing carry with
  | nil =>
    intro digit impossible
    cases impossible
  | cons digit digits ih =>
    have first := proper digit mem_cons_self
    have later := ih (multiplies.carry allowed first) (forall_mem_cons.mp proper).2
    intro written member
    rcases mem_cons.mp member with rfl | member
    · exact multiplies.digit_lt allowed first
    · exact later written member

theorem ascend_value (allowed : Carry carry) (proper : ∀ digit ∈ digits, digit < base) :
    Nat.ofDigits base (ascend step carry digits).1 +
        base ^ digits.length * (ascend step carry digits).2 =
      factor * Nat.ofDigits base digits + carry := by
  induction digits generalizing carry with
  | nil => simp [ascend]
  | cons digit digits ih =>
    have first := proper digit mem_cons_self
    have later := ih (multiplies.carry allowed first) (forall_mem_cons.mp proper).2
    have here := multiplies.value allowed first
    simp only [ascend, ofDigits_cons, length_cons]
    calc
      _ = (step carry digit).1 +
          base * (Nat.ofDigits base (ascend step (step carry digit).2 digits).1 +
            base ^ digits.length * (ascend step (step carry digit).2 digits).2) := by
        ring
      _ = ((step carry digit).1 + base * (step carry digit).2) +
          base * (factor * Nat.ofDigits base digits) := by
        rw [later]
        ring
      _ = factor * (digit + base * Nat.ofDigits base digits) + carry := by
        rw [here]
        ring

end

end Multiplies

/-- A step from low to high that takes a borrow from a digit. -/
structure Subtracts (base : Nat) (Borrow : Nat → Prop)
    (step : Nat → Nat → Nat × Nat) : Prop where
  value : ∀ {borrow digit}, Borrow borrow → digit < base →
    (step borrow digit).1 + borrow = digit + base * (step borrow digit).2
  digit_lt : ∀ {borrow digit}, Borrow borrow → digit < base → (step borrow digit).1 < base
  borrow : ∀ {borrow digit}, Borrow borrow → digit < base → Borrow (step borrow digit).2

namespace Subtracts

variable {borrow : Nat} {Borrow : Nat → Prop} {step : Nat → Nat → Nat × Nat} {digits : List Nat}

theorem ascend_lt (subtracts : Subtracts base Borrow step) (allowed : Borrow borrow)
    (proper : ∀ digit ∈ digits, digit < base) :
    ∀ digit ∈ (ascend step borrow digits).1, digit < base := by
  induction digits generalizing borrow with
  | nil =>
    intro digit impossible
    cases impossible
  | cons digit digits ih =>
    have first := proper digit mem_cons_self
    have later := ih (subtracts.borrow allowed first) (forall_mem_cons.mp proper).2
    intro written member
    rcases mem_cons.mp member with rfl | member
    · exact subtracts.digit_lt allowed first
    · exact later written member

theorem ascend_value (subtracts : Subtracts base Borrow step) (allowed : Borrow borrow)
    (proper : ∀ digit ∈ digits, digit < base) :
    Nat.ofDigits base (ascend step borrow digits).1 + borrow =
      Nat.ofDigits base digits + base ^ digits.length * (ascend step borrow digits).2 := by
  induction digits generalizing borrow with
  | nil => simp [ascend]
  | cons digit digits ih =>
    have first := proper digit mem_cons_self
    have later := ih (subtracts.borrow allowed first) (forall_mem_cons.mp proper).2
    have here := subtracts.value allowed first
    simp only [ascend, ofDigits_cons, length_cons]
    calc
      _ = ((step borrow digit).1 + borrow) +
          base * Nat.ofDigits base (ascend step (step borrow digit).2 digits).1 := by
        ring
      _ = digit + base * (Nat.ofDigits base (ascend step (step borrow digit).2 digits).1 +
            (step borrow digit).2) := by
        rw [here]
        ring
      _ = digit + base * Nat.ofDigits base digits +
          base ^ (digits.length + 1) * (ascend step (step borrow digit).2 digits).2 := by
        rw [later]
        ring

end Subtracts

/-- A step from high to low that divides a digit, with what is left above it, by a
divisor. -/
structure Divides (base divisor : Nat) (step : Nat → Nat → Nat × Nat) : Prop where
  value : ∀ {carry digit}, carry < divisor → digit < base →
    divisor * (step carry digit).1 + (step carry digit).2 = base * carry + digit
  digit_lt : ∀ {carry digit}, carry < divisor → digit < base → (step carry digit).1 < base
  carry_lt : ∀ {carry digit}, carry < divisor → digit < base → (step carry digit).2 < divisor

namespace Divides

variable {divisor : Nat} {step : Nat → Nat → Nat × Nat} {digits : List Nat}

theorem descend_value (divides : Divides base divisor step) (positive : 0 < divisor)
    (proper : ∀ digit ∈ digits, digit < base) :
    divisor * Nat.ofDigits base (descend step 0 digits).1 + (descend step 0 digits).2 =
        Nat.ofDigits base digits ∧ (descend step 0 digits).2 < divisor ∧
      ∀ digit ∈ (descend step 0 digits).1, digit < base := by
  induction digits with
  | nil => exact ⟨by simp [descend], positive, fun _ impossible => nomatch impossible⟩
  | cons digit digits ih =>
    have first := proper digit mem_cons_self
    obtain ⟨value, remainder, digitsLt⟩ := ih (forall_mem_cons.mp proper).2
    have here := divides.value remainder first
    refine ⟨?_, divides.carry_lt remainder first, ?_⟩
    · simp only [descend, ofDigits_cons]
      calc
        _ = (divisor * (step (descend step 0 digits).2 digit).1 +
              (step (descend step 0 digits).2 digit).2) +
            base * (divisor * Nat.ofDigits base (descend step 0 digits).1) := by
          ring
        _ = digit + base * (divisor * Nat.ofDigits base (descend step 0 digits).1 +
              (descend step 0 digits).2) := by
          rw [here]
          ring
        _ = digit + base * Nat.ofDigits base digits := by
          rw [value]
    intro written member
    rcases mem_cons.mp member with rfl | member
    · exact divides.digit_lt remainder first
    · exact digitsLt written member

theorem ofDigits_descend (divides : Divides base divisor step) (positive : 0 < divisor)
    (proper : ∀ digit ∈ digits, digit < base) :
    Nat.ofDigits base (descend step 0 digits).1 = Nat.ofDigits base digits / divisor := by
  obtain ⟨value, remainder, _⟩ := divides.descend_value positive proper
  rw [← value, mul_add_div positive, div_eq_of_lt remainder, add_zero]

end Divides

/-- The digits without the zeros at the high end. -/
def clamp (digits : List Nat) : List Nat :=
  digits.rdropWhile (· = 0)

/-- No digit at the high end is zero. -/
def Canonical (digits : List Nat) : Prop :=
  ∀ nonempty : digits ≠ [], digits.getLast nonempty ≠ 0

theorem canonical_clamp (digits : List Nat) : Canonical (clamp digits) := by
  intro nonempty
  have last := rdropWhile_last_not (fun digit => decide (digit = 0)) digits nonempty
  simpa [clamp] using last

variable {digits : List Nat}

theorem mem_of_mem_clamp {digit : Nat} (member : digit ∈ clamp digits) : digit ∈ digits :=
  (List.rdropWhile_prefix _ digits).subset member

theorem clamp_append_zero (digits : List Nat) : clamp (digits ++ [0]) = clamp digits :=
  rdropWhile_concat_pos _ digits 0 (by simp)

theorem length_clamp_le (digits : List Nat) : (clamp digits).length ≤ digits.length :=
  (List.rdropWhile_prefix _ digits).length_le

@[simp]
theorem ofDigits_clamp (base : Nat) (digits : List Nat) :
    Nat.ofDigits base (clamp digits) = Nat.ofDigits base digits := by
  induction digits using List.reverseRecOn with
  | nil => rfl
  | append_singleton digits digit ih =>
    rcases Nat.eq_zero_or_pos digit with rfl | positive
    · rw [clamp_append_zero, ih, ofDigits_append]
      simp
    · rw [clamp, rdropWhile_concat_neg]
      simpa using positive.ne'

variable {digits : List Nat}

section

variable (proper : 1 < base)

include proper

section

variable (digitsLt : ∀ digit ∈ digits, digit < base)

include digitsLt

theorem digits_ofDigits_of_canonical (canonical : Canonical digits) :
    Nat.digits base (Nat.ofDigits base digits) = digits :=
  digits_ofDigits base proper digits digitsLt canonical

theorem ofDigits_eq_zero_iff
    (canonical : Canonical digits) : Nat.ofDigits base digits = 0 ↔ digits = [] := by
  rw [← digits_eq_nil_iff_eq_zero (b := base),
    digits_ofDigits_of_canonical proper digitsLt canonical]

theorem ofDigits_lt : Nat.ofDigits base digits < base ^ digits.length :=
  ofDigits_lt_base_pow_length proper digitsLt

end

theorem pow_le_ofDigits (nonempty : digits ≠ [])
    (digitsLt : ∀ digit ∈ digits, digit < base) (canonical : Canonical digits) :
    base ^ (digits.length - 1) ≤ Nat.ofDigits base digits := by
  have lower : digits.length - 1 < (Nat.digits base (Nat.ofDigits base digits)).length := by
    rw [digits_ofDigits_of_canonical proper digitsLt canonical]
    have := length_pos_of_ne_nil nonempty
    omega
  exact (lt_digits_length_iff proper _).mp lower

theorem getLast_eq_div (nonempty : digits ≠ []) (digitsLt : ∀ digit ∈ digits, digit < base) :
    digits.getLast nonempty = Nat.ofDigits base digits / base ^ (digits.length - 1) := by
  have split := dropLast_append_getLast nonempty
  have below : Nat.ofDigits base digits.dropLast < base ^ digits.dropLast.length :=
    ofDigits_lt proper fun digit member => digitsLt digit (mem_of_mem_dropLast member)
  have value : Nat.ofDigits base digits = Nat.ofDigits base digits.dropLast +
        base ^ digits.dropLast.length * digits.getLast nonempty := by
    conv_lhs => rw [← split]
    rw [ofDigits_append, ofDigits_singleton]
  rw [value, ← length_dropLast, add_mul_div_left _ _ (by positivity), div_eq_of_lt below, zero_add]

end

/-- An operation on numbers that works bit by bit. -/
structure Bitwise (op : Nat → Nat → Nat) (bit : Bool → Bool → Bool) : Prop where
  testBit : ∀ left right i, (op left right).testBit i = bit (left.testBit i) (right.testBit i)
  zeros : bit false false = false

theorem bitwise_and : Bitwise (· &&& ·) Bool.and :=
  ⟨fun left right i => testBit_and left right i, rfl⟩

theorem bitwise_or : Bitwise (· ||| ·) Bool.or :=
  ⟨fun left right i => testBit_or left right i, rfl⟩

theorem bitwise_xor : Bitwise (· ^^^ ·) Bool.xor :=
  ⟨fun left right i => testBit_xor left right i, rfl⟩

theorem bitwise_ldiff : Bitwise Nat.ldiff fun left right => left && !right :=
  ⟨fun left right i => testBit_ldiff left right i, rfl⟩

namespace Bitwise

variable {op : Nat → Nat → Nat} {bit : Bool → Bool → Bool} {width : Nat} {left right : Nat}

section

variable (bitwise : Bitwise op bit)

include bitwise

theorem lt_two_pow (leftLt : left < 2 ^ width)
    (rightLt : right < 2 ^ width) : op left right < 2 ^ width := by
  apply lt_pow_two_of_testBit
  intro i high
  rw [bitwise.testBit, testBit_lt_two_pow (leftLt.trans_le (Nat.pow_le_pow_right two_pos high)),
    testBit_lt_two_pow (rightLt.trans_le (Nat.pow_le_pow_right two_pos high)), bitwise.zeros]

theorem zero_zero : op 0 0 = 0 := by
  apply eq_of_testBit_eq
  intro i
  rw [bitwise.testBit, zero_testBit, bitwise.zeros]

theorem op_add_mul (leftLt : left < 2 ^ width) (rightLt : right < 2 ^ width) (lefts rights : Nat) :
    op (left + 2 ^ width * lefts) (right + 2 ^ width * rights) =
      op left right + 2 ^ width * op lefts rights := by
  apply eq_of_testBit_eq
  intro i
  rw [bitwise.testBit, add_comm left, add_comm right, add_comm (op left right),
    testBit_two_pow_mul_add _ leftLt, testBit_two_pow_mul_add _ rightLt,
    testBit_two_pow_mul_add _ (bitwise.lt_two_pow leftLt rightLt)]
  by_cases low : i < width
  · rw [if_pos low, if_pos low, if_pos low, bitwise.testBit]
  · rw [if_neg low, if_neg low, if_neg low, bitwise.testBit]

theorem ofDigits_zipWith {lefts rights : List Nat} (leftsLt : ∀ digit ∈ lefts, digit < 2 ^ width)
    (rightsLt : ∀ digit ∈ rights, digit < 2 ^ width) (shorter : rights.length ≤ lefts.length) :
    Nat.ofDigits (2 ^ width) (List.zipWith op lefts rights ++
        (lefts.drop rights.length).map (op · 0)) =
      op (Nat.ofDigits (2 ^ width) lefts) (Nat.ofDigits (2 ^ width) rights) := by
  induction lefts generalizing rights with
  | nil =>
    have none : rights = [] := eq_nil_of_length_eq_zero (le_zero.mp shorter)
    subst none
    exact bitwise.zero_zero.symm
  | cons left lefts ih =>
    have leftLt := leftsLt left mem_cons_self
    have leftsLt' : ∀ digit ∈ lefts, digit < 2 ^ width := (forall_mem_cons.mp leftsLt).2
    cases rights with
    | nil =>
      have rest := @ih [] leftsLt' (fun _ impossible => nomatch impossible) (zero_le _)
      have split := bitwise.op_add_mul leftLt (Nat.two_pow_pos width)
        (Nat.ofDigits (2 ^ width) lefts) 0
      simp only [zipWith_nil_right, nil_append, length_nil, drop_zero, ofDigits_nil] at rest
      simp only [zipWith_nil_right, nil_append, length_nil,
        drop_zero, map_cons, ofDigits_cons, ofDigits_nil, rest]
      rw [← split, Nat.mul_zero, add_zero]
    | cons right rights =>
      have rightLt := rightsLt right mem_cons_self
      have rest := @ih rights leftsLt'
        (forall_mem_cons.mp rightsLt).2
        (le_of_succ_le_succ shorter)
      simp only [zipWith_cons_cons, cons_append, length_cons, drop_succ_cons, ofDigits_cons, rest]
      rw [bitwise.op_add_mul leftLt rightLt]

end

end Bitwise

theorem ofDigits_map_complement (digitsLt : ∀ digit ∈ digits, digit < base) :
    Nat.ofDigits base (digits.map (base - 1 - ·)) + Nat.ofDigits base digits + 1 =
      base ^ digits.length := by
  induction digits with
  | nil => rfl
  | cons digit digits ih =>
    have first := digitsLt digit mem_cons_self
    have rest := ih (forall_mem_cons.mp digitsLt).2
    have here : base - 1 - digit + digit + 1 = base := by omega
    simp only [map_cons, ofDigits_cons, length_cons]
    calc
      _ = (base - 1 - digit + digit + 1) + base * (Nat.ofDigits base (digits.map (base - 1 - ·)) +
            Nat.ofDigits base digits) := by
        ring
      _ = base * (Nat.ofDigits base (digits.map (base - 1 - ·)) +
            Nat.ofDigits base digits + 1) := by
        rw [here]
        ring
      _ = base ^ (digits.length + 1) := by
        rw [rest, pow_succ, mul_comm]

variable {value other : Nat}

section
variable (fits : value < 2 ^ width)
include fits

theorem testBit_complement (i : Nat) :
    (2 ^ width - (value + 1)).testBit i = (decide (i < width) && !value.testBit i) :=
  testBit_two_pow_sub_succ fits i

theorem lt_of_testBit {i : Nat} (set : value.testBit i = true) : i < width := by
  by_contra high
  have : value.testBit i = false :=
    testBit_lt_two_pow (fits.trans_le (Nat.pow_le_pow_right two_pos (not_lt.mp high)))
  rw [this] at set
  cases set

theorem complement_and (otherFits : other < 2 ^ width) :
    (2 ^ width - (value + 1)) &&& other = Nat.ldiff other value := by
  apply eq_of_testBit_eq
  intro i
  rw [testBit_and, testBit_complement fits, testBit_ldiff]
  cases set : other.testBit i with
  | false => simp
  | true => simp [lt_of_testBit otherFits set]

theorem complement_or (otherFits : other < 2 ^ width) :
    (2 ^ width - (value + 1)) ||| other = 2 ^ width - (Nat.ldiff value other + 1) := by
  have ldiffFits := bitwise_ldiff.lt_two_pow fits otherFits
  apply eq_of_testBit_eq
  intro i
  rw [testBit_or, testBit_complement fits, testBit_complement ldiffFits, testBit_ldiff]
  cases set : other.testBit i with
  | false => simp
  | true => simp [lt_of_testBit otherFits set]

theorem complement_xor (otherFits : other < 2 ^ width) :
    (2 ^ width - (value + 1)) ^^^ other = 2 ^ width - ((value ^^^ other) + 1) := by
  have xorFits := bitwise_xor.lt_two_pow fits otherFits
  apply eq_of_testBit_eq
  intro i
  rw [testBit_xor, testBit_complement fits, testBit_complement xorFits, testBit_xor]
  cases set : other.testBit i with
  | false => simp
  | true => simp [lt_of_testBit otherFits set]

end

end RakudoStar.Digits
