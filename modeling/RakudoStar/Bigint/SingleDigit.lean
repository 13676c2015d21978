import RakudoStar.Bigint.MpInt

/-!
# Arithmetic with one digit

`mp_add_d`, `mp_sub_d` and `mp_mul_d`: loops that hand a carry, or a borrow, to the next digit.
-/

namespace RakudoStar.Bigint

open Digits List Nat

variable (fmt : DigitFormat)

/-- One round of the loop of `mp_add_d`: `*tmpc = *tmpa++ + mu`, the carry and the mask. -/
def addStep (mu digit : Nat) : Nat × Nat :=
  ((digit + mu) &&& fmt.mpMask, (digit + mu) >>> fmt.digitBit)

/-- One round of the loop of `mp_sub_d`, in words that wrap around: the borrow is the top
bit. -/
def subStep (mu digit : Nat) : Nat × Nat :=
  let word := (digit + (2 ^ fmt.wordBit - mu)) % 2 ^ fmt.wordBit
  (word &&& fmt.mpMask, word >>> (fmt.wordBit - 1))

/-- One round of the loop of `mp_mul_d`. -/
def mulStep (b u digit : Nat) : Nat × Nat :=
  let r := u + digit * b
  (r &&& fmt.mpMask, r >>> fmt.digitBit)

/-- `mp_add_d` of a number that is not negative, before it is clamped. -/
def addDigits (b : Nat) (digits : List Nat) : List Nat :=
  if digits.length = 0 then [b &&& fmt.mpMask]
  else
    let columns := ascend (addStep fmt) b digits
    columns.1 ++ [columns.2]

/-- `mp_sub_d` of a number that is not negative: the only kind `mp_add_d` calls it with. -/
def mpSubD (a : MpInt) (b : Nat) (c : MpInt) : MpInt :=
  let c := mpGrow c (a.used + 1)
  if (a.used = 1 ∧ a.lowest ≤ b) ∨ a.used = 0 then
    mpClamp { c with
      sign := .neg
      digits := if a.used = 1 then [b - a.lowest] else [b] }
  else
    mpClamp { c with
      sign := .zpos
      digits := (ascend (subStep fmt) b a.digits).1 }

def mpAddD (a : MpInt) (b : Nat) (c : MpInt) : MpInt :=
  let c := mpGrow c (a.used + 1)
  if a.sign = .neg ∧ (1 < a.used ∨ b ≤ a.lowest) then
    mpClamp { mpSubD fmt { a with sign := .zpos } b c with sign := .neg }
  else if a.sign = .zpos then
    mpClamp { c with
      sign := .zpos
      digits := addDigits fmt b a.digits }
  else
    -- a was negative and |a| < b
    mpClamp { c with
      sign := .zpos
      digits := if a.used = 1 then [b - a.lowest] else [b] }

def mpMulD (a : MpInt) (b : Nat) (c : MpInt) : MpInt :=
  let c := mpGrow c (a.used + 1)
  let columns := ascend (mulStep fmt b) 0 a.digits
  mpClamp { c with
    sign := a.sign
    digits := columns.1 ++ [columns.2] }

variable {fmt} {a c : MpInt} {b : Nat}

theorem multiplies_mulStep (below : b ≤ fmt.base) :
    Multiplies fmt.base b (· < fmt.base) (mulStep fmt b) where
  value := by
    intro u digit _ _
    simp only [mulStep, DigitFormat.and_mpMask, shiftRight_eq_div_pow]
    rw [← DigitFormat.base, mod_add_div, mul_comm b, add_comm]
  digit_lt := by
    intro u digit _ _
    simp only [mulStep, DigitFormat.and_mpMask]
    exact mod_lt _ fmt.base_pos
  carry := by
    intro u digit uLt digitLt
    simp only [mulStep, shiftRight_eq_div_pow]
    rw [← DigitFormat.base, div_lt_iff_lt_mul fmt.base_pos]
    calc
      u + digit * b < fmt.base + digit * b := Nat.add_lt_add_right uLt _
      _ ≤ fmt.base + digit * fmt.base := Nat.add_le_add_left (Nat.mul_le_mul_left _ below) _
      _ = (digit + 1) * fmt.base := by ring
      _ ≤ fmt.base * fmt.base := Nat.mul_le_mul_right _ digitLt

theorem multiplies_addStep : Multiplies fmt.base 1 (· < fmt.base) (addStep fmt) where
  value := by
    intro mu digit _ _
    simp only [addStep, DigitFormat.and_mpMask, shiftRight_eq_div_pow]
    rw [← DigitFormat.base, mod_add_div, one_mul]
  digit_lt := by
    intro mu digit _ _
    simp only [addStep, DigitFormat.and_mpMask]
    exact mod_lt _ fmt.base_pos
  carry := by
    intro mu digit muLt digitLt
    have room := fmt.one_lt_base
    simp only [addStep, shiftRight_eq_div_pow]
    rw [← DigitFormat.base, div_lt_iff_lt_mul fmt.base_pos]
    calc
      digit + mu < fmt.base + fmt.base := Nat.add_lt_add digitLt muLt
      _ = 2 * fmt.base := (Nat.two_mul _).symm
      _ ≤ fmt.base * fmt.base := Nat.mul_le_mul_right _ room

theorem two_mul_base_le (fmt : DigitFormat) : 2 * fmt.base ≤ 2 ^ fmt.wordBit := by
  rw [DigitFormat.base, ← pow_succ']
  exact Nat.pow_le_pow_right two_pos fmt.digitBit_lt_wordBit

theorem base_dvd_word (fmt : DigitFormat) : fmt.base ∣ 2 ^ fmt.wordBit :=
  pow_dvd_pow 2 fmt.digitBit_lt_wordBit.le

/-- The top bit of a wrapped difference tells whether it wrapped. -/
theorem subStep_eq {mu digit : Nat} (muLt : mu ≤ fmt.base) (digitLt : digit < fmt.base) :
    subStep fmt mu digit = if digit < mu then (digit + fmt.base - mu, 1) else (digit - mu, 0) := by
  have half := two_mul_base_le fmt
  have word : 2 ^ fmt.wordBit = 2 * 2 ^ (fmt.wordBit - 1) := by
    rw [← pow_succ', succ_eq_add_one, Nat.sub_add_cancel]
    exact one_le_of_lt fmt.digitBit_lt_wordBit
  obtain ⟨factor, factorEq⟩ := base_dvd_word fmt
  have factorPos : 0 < factor := by
    rw [pos_iff_ne_zero]
    rintro rfl
    omega
  simp only [subStep, DigitFormat.and_mpMask, shiftRight_eq_div_pow]
  by_cases less : digit < mu
  · have stays : digit + (2 ^ fmt.wordBit - mu) < 2 ^ fmt.wordBit := by omega
    have split : digit + (2 ^ fmt.wordBit - mu) =
        (digit + fmt.base - mu) + fmt.base * (factor - 1) := by
      have := mul_sub_one fmt.base factor
      omega
    have top : (digit + (2 ^ fmt.wordBit - mu)) / 2 ^ (fmt.wordBit - 1) = 1 := by
      rw [Nat.div_eq_iff (Nat.two_pow_pos _)]
      omega
    rw [if_pos less, mod_eq_of_lt stays, top, split, add_mul_mod_self_left, mod_eq_of_lt (by omega)]
  have wraps : digit + (2 ^ fmt.wordBit - mu) = (digit - mu) + 2 ^ fmt.wordBit := by omega
  have small : digit - mu < 2 ^ (fmt.wordBit - 1) := by omega
  have stays : (digit - mu) % 2 ^ fmt.wordBit = digit - mu := mod_eq_of_lt (by omega)
  rw [if_neg less, wraps, add_mod_right, stays, mod_eq_of_lt (by omega), div_eq_of_lt small]

theorem subtracts_subStep : Subtracts fmt.base (· < fmt.base) (subStep fmt) where
  value := by
    intro mu digit muLt digitLt
    rw [subStep_eq muLt.le digitLt]
    split <;> dsimp only <;> omega
  digit_lt := by
    intro mu digit muLt digitLt
    rw [subStep_eq muLt.le digitLt]
    split <;> dsimp only <;> omega
  borrow := by
    intro mu digit muLt digitLt
    have room := fmt.one_lt_base
    rw [subStep_eq muLt.le digitLt]
    split
    · exact room
    · exact fmt.base_pos

variable (fmt) in
theorem digits_lt_append_carry {columns : List Nat × Nat}
    (digitsLt : ∀ digit ∈ columns.1, digit < fmt.base) (carryLt : columns.2 < fmt.base) :
    ∀ digit ∈ columns.1 ++ [columns.2], digit < fmt.base := by
  intro digit member
  rcases mem_append.mp member with member | member
  · exact digitsLt digit member
  · rw [mem_singleton.mp member]
    exact carryLt

theorem addDigits_lt (below : b < fmt.base) {digits : List Nat}
    (digitsLt : ∀ digit ∈ digits, digit < fmt.base) :
    ∀ digit ∈ addDigits fmt b digits, digit < fmt.base := by
  unfold addDigits
  split
  · intro digit member
    rw [mem_singleton.mp member, DigitFormat.and_mpMask]
    exact mod_lt _ fmt.base_pos
  · exact digits_lt_append_carry fmt (multiplies_addStep.ascend_lt below digitsLt)
      (multiplies_addStep.ascend_carry below digitsLt)

theorem length_addDigits (digits : List Nat) :
    (addDigits fmt b digits).length = digits.length + 1 := by
  unfold addDigits
  split
  · rw [‹digits.length = 0›]
    rfl
  · rw [length_append, length_ascend, length_singleton]

theorem ofDigits_addDigits (below : b < fmt.base) {digits : List Nat}
    (digitsLt : ∀ digit ∈ digits, digit < fmt.base) :
    Nat.ofDigits fmt.base (addDigits fmt b digits) = Nat.ofDigits fmt.base digits + b := by
  unfold addDigits
  split
  · rw [length_eq_zero_iff.mp ‹digits.length = 0›, DigitFormat.and_mpMask,
      ofDigits_singleton, mod_eq_of_lt below, ofDigits_nil, zero_add]
  have value := multiplies_addStep.ascend_value below digitsLt
  rw [one_mul] at value
  rw [ofDigits_append, ofDigits_singleton, length_ascend, value]

theorem used_le_alloc_mpGrow : a.used + 1 ≤ (mpGrow c (a.used + 1)).alloc :=
  le_alloc_mpGrow (a.used + 1)

theorem mpSubD_spec (valid : a.Valid fmt) (below : b < fmt.base)
    (enough : 1 < a.used ∨ b ≤ a.lowest ∧ 0 < a.used) :
    (∀ digit ∈ (mpSubD fmt a b c).digits, digit < fmt.base) ∧
      (mpSubD fmt a b c).magnitude fmt + b = a.magnitude fmt ∧
      (mpSubD fmt a b c).used ≤ (mpSubD fmt a b c).alloc ∧
      (mpSubD fmt a b c).alloc = (mpGrow c (a.used + 1)).alloc := by
  have grown : a.used + 1 ≤ (mpGrow c (a.used + 1)).alloc := used_le_alloc_mpGrow
  unfold mpSubD
  by_cases short : (a.used = 1 ∧ a.lowest ≤ b) ∨ a.used = 0
  · have single : a.used = 1 := by omega
    have same : a.lowest = b := by omega
    have value := MpInt.magnitude_of_used_le_one fmt single.le
    rw [if_pos short, if_pos single, same, Nat.sub_self]
    refine ⟨?_, ?_, ?_, rfl⟩
    · intro digit member
      have inside := mem_of_mem_clamp member
      rw [mem_singleton.mp inside]
      exact fmt.base_pos
    · rw [magnitude_mpClamp, MpInt.magnitude, ofDigits_singleton, value, same, zero_add]
    · refine (length_clamp_le _).trans ?_
      rw [length_singleton]
      exact (Nat.le_add_left 1 _).trans grown
  have value := subtracts_subStep.ascend_value below valid.digits_lt
  have digitsLt := subtracts_subStep.ascend_lt below valid.digits_lt
  have resultLt := ofDigits_lt fmt.one_lt_base digitsLt
  have large : b ≤ a.magnitude fmt := by
    rcases enough with several | ⟨atLeast, _⟩
    · exact below.le.trans (valid.base_le_magnitude several)
    by_cases several : 1 < a.used
    · exact below.le.trans (valid.base_le_magnitude several)
    · rw [MpInt.magnitude_of_used_le_one fmt (not_lt.mp several)]
      exact atLeast
  -- the last borrow would make the result larger than its digits allow
  have noBorrow : (ascend (subStep fmt) b a.digits).2 = 0 := by
    by_contra borrowed
    have least : fmt.base ^ a.digits.length ≤
        fmt.base ^ a.digits.length * (ascend (subStep fmt) b a.digits).2 :=
      Nat.le_mul_of_pos_right _ (Nat.pos_of_ne_zero borrowed)
    rw [length_ascend] at resultLt
    unfold MpInt.magnitude at large
    omega
  rw [noBorrow, Nat.mul_zero, add_zero] at value
  rw [if_neg short]
  refine ⟨fun digit member => digitsLt digit (mem_of_mem_clamp member), ?_, ?_, rfl⟩
  · rw [magnitude_mpClamp]
    exact value
  refine (length_clamp_le _).trans ?_
  rw [length_ascend]
  exact (Nat.le_add_right _ 1).trans grown

theorem mpAddD_of_zpos (positive : a.sign = .zpos)
    (digitsLt : ∀ digit ∈ a.digits, digit < fmt.base) (below : b < fmt.base) :
    (mpAddD fmt a b c).Valid fmt ∧ (mpAddD fmt a b c).toInt fmt = (a.magnitude fmt + b : Nat) := by
  have grown : a.used + 1 ≤ (mpGrow c (a.used + 1)).alloc := used_le_alloc_mpGrow
  have notNegative : ¬ (a.sign = .neg ∧ (1 < a.used ∨ b ≤ a.lowest)) := by
    rintro ⟨negative, _⟩
    rw [positive] at negative
    cases negative
  unfold mpAddD
  rw [if_neg notNegative, if_pos positive]
  refine ⟨valid_mpClamp (addDigits_lt below digitsLt) ?_ ((succ_pos _).trans_le grown), ?_⟩
  · rw [MpInt.used, length_addDigits]
    exact grown
  · rw [toInt_mpClamp, MpInt.toInt_zpos rfl, MpInt.magnitude, ofDigits_addDigits below digitsLt,
      MpInt.magnitude]

theorem mpAddD_spec (valid : a.Valid fmt) (below : b < fmt.base) :
    (mpAddD fmt a b c).Valid fmt ∧ (mpAddD fmt a b c).toInt fmt = a.toInt fmt + b := by
  have grown : a.used + 1 ≤ (mpGrow c (a.used + 1)).alloc := used_le_alloc_mpGrow
  have allocated : 0 < (mpGrow c (a.used + 1)).alloc := (succ_pos _).trans_le grown
  unfold mpAddD
  by_cases large : a.sign = .neg ∧ (1 < a.used ∨ b ≤ a.lowest)
  · obtain ⟨negative, enough⟩ := large
    have nonempty : 0 < a.used := by
      rw [pos_iff_ne_zero]
      intro none
      rw [valid.zero_zpos (length_eq_zero_iff.mp none)] at negative
      cases negative
    have positive : ({ a with sign := .zpos } : MpInt).Valid fmt :=
      ⟨valid.digits_lt, valid.canonical, fun _ => rfl, valid.used_le_alloc, valid.alloc_pos⟩
    obtain ⟨digitsLt, value, used, alloc⟩ := mpSubD_spec (c := mpGrow c (a.used + 1)) positive
      below (enough.imp_right fun atLeast => ⟨atLeast, nonempty⟩)
    have room : 0 < (mpSubD fmt { a with sign := .zpos } b (mpGrow c (a.used + 1))).alloc := by
      rw [alloc]
      exact allocated.trans_le (alloc_le_alloc_mpGrow _)
    rw [if_pos ⟨negative, enough⟩]
    refine ⟨valid_mpClamp digitsLt used room, ?_⟩
    rw [toInt_mpClamp, MpInt.toInt_neg rfl, MpInt.toInt_neg negative]
    have exact : (mpSubD fmt { a with sign := .zpos } b (mpGrow c (a.used + 1))).magnitude fmt +
        b = a.magnitude fmt := value
    have same : ({ mpSubD fmt { a with sign := .zpos } b (mpGrow c (a.used + 1)) with
        sign := .neg } : MpInt).magnitude fmt =
        (mpSubD fmt { a with sign := .zpos } b (mpGrow c (a.used + 1))).magnitude fmt := rfl
    rw [same]
    omega
  · by_cases positive : a.sign = .zpos
    · have added := mpAddD_of_zpos (c := c) positive valid.digits_lt below
      rw [mpAddD, if_neg large] at added
      rw [if_neg large, MpInt.toInt_zpos positive]
      exact ⟨added.1, added.2.trans (cast_add _ _)⟩
    have negative : a.sign = .neg := MpInt.sign_ne_zpos.mp positive
    have few : ¬ (1 < a.used ∨ b ≤ a.lowest) := fun enough => large ⟨negative, enough⟩
    rw [not_or, not_lt, not_le] at few
    have nonzero := valid.magnitude_pos negative
    have single : a.used = 1 := by
      rcases lt_or_ge 0 a.used with some | none
      · exact le_antisymm few.1 some
      · rw [valid.magnitude_eq_zero_iff.mpr (length_eq_zero_iff.mp (le_zero.mp none))] at nonzero
        exact absurd nonzero (lt_irrefl 0)
    have value := MpInt.magnitude_of_used_le_one fmt few.1
    rw [if_neg large, if_neg positive, if_pos single]
    refine ⟨valid_mpClamp ?_ ?_ allocated, ?_⟩
    · intro digit member
      rw [mem_singleton.mp member]
      exact (sub_le _ _).trans_lt below
    · exact (Nat.le_add_left 1 _).trans grown
    · rw [toInt_mpClamp, MpInt.toInt_zpos rfl, MpInt.toInt_neg negative, MpInt.magnitude,
        ofDigits_singleton, value]
      omega

theorem mpMulD_spec (valid : a.Valid fmt) (below : b ≤ fmt.base) :
    (mpMulD fmt a b c).Valid fmt ∧ (mpMulD fmt a b c).toInt fmt = a.toInt fmt * b := by
  have grown : a.used + 1 ≤ (mpGrow c (a.used + 1)).alloc := used_le_alloc_mpGrow
  have multiplies := multiplies_mulStep below
  have value := multiplies.ascend_value fmt.base_pos valid.digits_lt
  rw [add_zero] at value
  refine ⟨valid_mpClamp (digits_lt_append_carry fmt
    (multiplies.ascend_lt fmt.base_pos valid.digits_lt)
    (multiplies.ascend_carry fmt.base_pos valid.digits_lt)) ?_ ((succ_pos _).trans_le grown), ?_⟩
  · rw [MpInt.used, length_append, length_ascend, length_singleton]
    exact grown
  have magnitude : Nat.ofDigits fmt.base ((ascend (mulStep fmt b) 0 a.digits).1 ++
      [(ascend (mulStep fmt b) 0 a.digits).2]) = b * a.magnitude fmt := by
    rw [ofDigits_append, ofDigits_singleton, length_ascend, value]
    rfl
  rw [mpMulD, toInt_mpClamp]
  cases sign : a.sign with
  | zpos =>
    rw [MpInt.toInt_zpos rfl, MpInt.toInt_zpos sign, MpInt.magnitude, magnitude]
    push_cast
    ring
  | neg =>
    rw [MpInt.toInt_neg rfl, MpInt.toInt_neg sign, MpInt.magnitude, magnitude]
    push_cast
    ring

end RakudoStar.Bigint
