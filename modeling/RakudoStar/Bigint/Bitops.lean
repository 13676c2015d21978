import RakudoStar.Bigint.Shifts

/-!
# Bitwise operations on magnitudes, and two's complement

`mp_and`, `mp_or` and `mp_xor` combine digits. For operands of different signs
`two_complement_bitop` puts the two's complement of the negative one in its place, as wide as
the longer operand, and takes the sign from the top bit of the top digit.
-/

namespace RakudoStar.Bigint

open Digits RakudoStar.Except List Nat

variable (fmt : DigitFormat)

/-- What `mp_and`, `mp_or` and `mp_xor` share: the longer operand, combined with the other. -/
def mpBitop (op : Nat → Nat → Nat) (above : Nat → Nat) (a b : MpInt) : MpInt :=
  let t := if b.used < a.used then mpInitCopy a else mpInitCopy b
  let x := if b.used < a.used then b else a
  mpClamp { t with digits := List.zipWith op t.digits x.digits ++ (t.digits.drop x.used).map above }

def mpAnd : MpInt → MpInt → MpInt :=
  mpBitop (· &&& ·) fun _ => 0

def mpOr : MpInt → MpInt → MpInt :=
  mpBitop (· ||| ·) id

def mpXor : MpInt → MpInt → MpInt :=
  mpBitop (· ^^^ ·) id

/-- `(~DIGIT(a, i)) & MP_MASK`. -/
def complementAt (a : MpInt) (i : Nat) : Except Fault Nat := do
  let digit ← a.digit i
  .ok ((2 ^ fmt.wordBit - 1 - digit) &&& fmt.mpMask)

def growAndNegate (a : MpInt) (size : Nat) (b : MpInt) : Except Fault MpInt := do
  let actualSize := max size a.used
  let b := mpGrow (mpZero b) actualSize
  let digits ← (List.range actualSize).mapM (complementAt fmt a)
  let b := { b with digits := digits }
  .ok (mpAddD fmt b 1 b)

/-- For operands of two signs: the sign is read off the top bit of the top digit. -/
def restoreSign (c d : MpInt) : Except Fault MpInt := do
  let top ← c.digit ((c.used : Int) - 1)
  if top &&& (1 <<< (fmt.digitBit - 1)) ≠ 0 then do
    let d ← growAndNegate fmt c c.used d
    .ok (mpNeg (mpCopy d c))
  else .ok c

def twoComplementBitop (a b : MpInt) (bitop : MpInt → MpInt → MpInt) : Except Fault MpInt := do
  if a.sign ≠ b.sign then
    if a.sign = .neg then do
      let d ← growAndNegate fmt a b.used mpInit
      restoreSign fmt (bitop d b) d
    else do
      let d ← growAndNegate fmt b a.used mpInit
      restoreSign fmt (bitop a d) d
  else .ok (bitop a b)

variable {fmt} {bit : Bool → Bool → Bool} {op : Nat → Nat → Nat} {a b c : MpInt}
  {bitop : MpInt → MpInt → MpInt} {ε α β : Type} {keys : List α} {read : α → Except ε β}
  {size : Nat}

section

variable {above : Nat → Nat} {a b : MpInt}

/-- The operation is taken on the magnitudes; the sign is that of one of the operands. -/
theorem mpBitop_spec (bitwise : Bitwise op bit) (aboveEq : ∀ digit, above digit = op digit 0)
    (comm : ∀ left right, op left right = op right left) (validA : a.Valid fmt)
    (validB : b.Valid fmt) : (mpBitop op above a b).Valid fmt ∧
      (mpBitop op above a b).magnitude fmt = op (a.magnitude fmt) (b.magnitude fmt) ∧
      ∀ sign, a.sign = sign → b.sign = sign →
        (mpBitop op above a b).sign = sign ∨ (mpBitop op above a b).digits = [] := by
  -- the longer operand `t` and the shorter one `x`
  have core : ∀ {t x : MpInt}, t.Valid fmt → x.Valid fmt → x.used ≤ t.used →
      (∀ digit ∈ List.zipWith op t.digits x.digits ++ (t.digits.drop x.used).map above,
        digit < fmt.base) ∧ Nat.ofDigits fmt.base
          (List.zipWith op t.digits x.digits ++ (t.digits.drop x.used).map above) =
        op (t.magnitude fmt) (x.magnitude fmt) ∧
      (List.zipWith op t.digits x.digits ++ (t.digits.drop x.used).map above).length = t.used := by
    intro t x validT validX shorter
    have same : above = (op · 0) := funext aboveEq
    rw [same]
    refine ⟨?_, bitwise.ofDigits_zipWith validT.digits_lt validX.digits_lt shorter, ?_⟩
    · intro digit member
      rcases mem_append.mp member with member | member
      · obtain ⟨i, inside, rfl⟩ := getElem_of_mem member
        rw [getElem_zipWith]
        exact bitwise.lt_two_pow (validT.digits_lt _ (getElem_mem _))
          (validX.digits_lt _ (getElem_mem _))
      · obtain ⟨other, inside, rfl⟩ := mem_map.mp member
        exact bitwise.lt_two_pow (validT.digits_lt _ (mem_of_mem_drop inside)) fmt.base_pos
    · unfold MpInt.used at shorter ⊢
      rw [length_append, length_zipWith, length_map, length_drop]
      omega
  have copies : ∀ t : MpInt, t.used ≤ (mpInitCopy t).alloc := fun t => le_alloc_mpGrow t.used
  have allocated : ∀ t : MpInt, 0 < (mpInitCopy t).alloc := fun t =>
    (by decide : 0 < mpInit.alloc).trans_le (alloc_le_alloc_mpGrow t.used)
  have signs : ∀ {t : MpInt} {sign : Sign}, t.sign = sign →
      (mpClamp t).sign = sign ∨ (mpClamp t).digits = [] := by
    intro t sign same
    by_cases none : (clamp t.digits).length = 0
    · exact .inr (length_eq_zero_iff.mp none)
    · exact .inl ((if_neg none).trans same)
  unfold mpBitop
  by_cases longer : b.used < a.used
  · obtain ⟨digitsLt, value, length⟩ := core validA validB longer.le
    simp only [if_pos longer]
    refine ⟨valid_mpClamp digitsLt (length.le.trans (copies a)) (allocated a), ?_,
      fun sign signA _ => signs signA⟩
    rw [magnitude_mpClamp]
    exact value
  obtain ⟨digitsLt, value, length⟩ := core validB validA (not_lt.mp longer)
  simp only [if_neg longer]
  refine ⟨valid_mpClamp digitsLt (length.le.trans (copies b)) (allocated b), ?_,
    fun sign _ signB => signs signB⟩
  rw [magnitude_mpClamp, comm]
  exact value

end

/-- A routine that takes a bitwise operation on the magnitudes. -/
structure ComputesBitop (fmt : DigitFormat) (op : Nat → Nat → Nat) (bit : Bool → Bool → Bool)
    (bitop : MpInt → MpInt → MpInt) : Prop where
  bitwise : Bitwise op bit
  valid : ∀ {a b : MpInt}, a.Valid fmt → b.Valid fmt → (bitop a b).Valid fmt
  magnitude : ∀ {a b : MpInt}, a.Valid fmt → b.Valid fmt →
    (bitop a b).magnitude fmt = op (a.magnitude fmt) (b.magnitude fmt)
  sign : ∀ {a b : MpInt} {sign : Sign}, a.Valid fmt → b.Valid fmt → a.sign = sign →
    b.sign = sign → (bitop a b).sign = sign ∨ (bitop a b).digits = []
  comm : ∀ left right, op left right = op right left

theorem computesBitop_mpBitop {above : Nat → Nat} (bitwise : Bitwise op bit)
    (aboveEq : ∀ digit, above digit = op digit 0)
    (comm : ∀ left right, op left right = op right left) :
    ComputesBitop fmt op bit (mpBitop op above) where
  bitwise := bitwise
  valid := fun validA validB => (mpBitop_spec bitwise aboveEq comm validA validB).1
  magnitude := fun validA validB => (mpBitop_spec bitwise aboveEq comm validA validB).2.1
  sign := fun validA validB => (mpBitop_spec bitwise aboveEq comm validA validB).2.2 _
  comm := comm

theorem computesBitop_mpAnd : ComputesBitop fmt (· &&& ·) Bool.and mpAnd :=
  computesBitop_mpBitop bitwise_and (fun digit => (and_zero digit).symm) Nat.and_comm

theorem computesBitop_mpOr : ComputesBitop fmt (· ||| ·) Bool.or mpOr :=
  computesBitop_mpBitop bitwise_or (fun digit => (or_zero digit).symm) Nat.or_comm

theorem computesBitop_mpXor : ComputesBitop fmt (· ^^^ ·) Bool.xor mpXor :=
  computesBitop_mpBitop bitwise_xor (fun digit => (Nat.xor_zero digit).symm) Nat.xor_comm

theorem ComputesBitop.toInt_of_zpos (computes : ComputesBitop fmt op bit bitop)
    (validA : a.Valid fmt) (validB : b.Valid fmt) (signA : a.sign = .zpos)
    (signB : b.sign = .zpos) :
    (bitop a b).toInt fmt = (op (a.magnitude fmt) (b.magnitude fmt) : Nat) := by
  have valid := computes.valid validA validB
  have zpos : (bitop a b).sign = .zpos :=
    (computes.sign validA validB signA signB).elim id valid.zero_zpos
  rw [MpInt.toInt_zpos zpos, computes.magnitude validA validB]

theorem ComputesBitop.toInt_of_neg (computes : ComputesBitop fmt op bit bitop)
    (validA : a.Valid fmt) (validB : b.Valid fmt) (signA : a.sign = .neg) (signB : b.sign = .neg) :
    (bitop a b).toInt fmt = -(op (a.magnitude fmt) (b.magnitude fmt) : Nat) := by
  have valid := computes.valid validA validB
  rw [← computes.magnitude validA validB]
  rcases computes.sign validA validB signA signB with negative | none
  · exact MpInt.toInt_neg negative
  · rw [MpInt.toInt_zpos (valid.zero_zpos none), valid.magnitude_eq_zero_iff.mpr none]
    rfl

theorem mapM_eq_ok {value : α → β} (reads : ∀ key ∈ keys, read key = .ok (value key)) :
    keys.mapM read = .ok (keys.map value) := by
  induction keys with
  | nil => rfl
  | cons key keys ih =>
    rw [mapM_cons, reads key mem_cons_self, ok_bind,
      ih (forall_mem_cons.mp reads).2, ok_bind, map_cons]
    rfl

theorem mapM_eq_error {failure : ε}
    (only : ∀ key ∈ keys, ∀ other, read key = .error other → other = failure) {bad : α}
    (member : bad ∈ keys) (fails : read bad = .error failure) :
    keys.mapM read = .error failure := by
  induction keys with
  | nil => cases member
  | cons key keys ih =>
    rw [mapM_cons]
    cases first : read key with
    | error other => rw [only key mem_cons_self other first, error_bind]
    | ok value =>
      rcases mem_cons.mp member with rfl | later
      · rw [fails] at first
        cases first
      · rw [ok_bind, ih (forall_mem_cons.mp only).2 later, error_bind]

theorem complement_digit {digit : Nat} (below : digit < fmt.base) :
    (2 ^ fmt.wordBit - 1 - digit) &&& fmt.mpMask = fmt.base - 1 - digit := by
  obtain ⟨factor, factorEq⟩ := base_dvd_word fmt
  have factorPos : 0 < factor := by
    rw [pos_iff_ne_zero]
    rintro rfl
    have := Nat.two_pow_pos fmt.wordBit
    omega
  have split : 2 ^ fmt.wordBit - 1 - digit = (fmt.base - 1 - digit) + fmt.base * (factor - 1) := by
    have := mul_sub_one fmt.base factor
    have := Nat.le_mul_of_pos_right fmt.base factorPos
    omega
  rw [DigitFormat.and_mpMask, split, add_mul_mod_self_left, mod_eq_of_lt (by omega)]

theorem map_range_getD (digits : List Nat) {count : Nat} (enough : digits.length ≤ count) :
    (range count).map (digits.getD · 0) = digits ++ replicate (count - digits.length) 0 := by
  apply ext_getElem
  · simp [Nat.add_sub_cancel' enough]
  intro i inside _
  rw [getElem_map, getElem_range, getD_eq_getElem?_getD]
  by_cases low : i < digits.length
  · rw [getElem_append_left low, getElem?_eq_getElem low, Option.getD_some]
  · rw [getElem_append_right (not_lt.mp low), getElem_replicate,
      getElem?_eq_none (not_lt.mp low), Option.getD_none]

theorem growAndNegate_spec (valid : a.Valid fmt) (allocated : size ≤ a.alloc) :
    ∃ d, growAndNegate fmt a size b = .ok d ∧ d.Valid fmt ∧ d.sign = .zpos ∧
      d.magnitude fmt = fmt.base ^ max size a.used - a.magnitude fmt := by
  obtain ⟨count, countEq⟩ : ∃ count, max size a.used = count := ⟨_, rfl⟩
  have enough : a.digits.length ≤ count := by
    rw [← countEq]
    exact Nat.le_max_right _ _
  have inside : count ≤ a.alloc := by
    rw [← countEq]
    exact Nat.max_le.mpr ⟨allocated, valid.used_le_alloc⟩
  obtain ⟨padded, paddedEq⟩ : ∃ padded,
      a.digits ++ replicate (count - a.digits.length) 0 = padded := ⟨_, rfl⟩
  have paddedLt : ∀ digit ∈ padded, digit < fmt.base := by
    rw [← paddedEq]
    intro digit member
    rcases mem_append.mp member with member | zero
    · exact valid.digits_lt digit member
    · rw [eq_of_mem_replicate zero]
      exact fmt.base_pos
  have paddedLength : padded.length = count := by
    rw [← paddedEq, length_append, length_replicate, Nat.add_sub_cancel' enough]
  have paddedValue : Nat.ofDigits fmt.base padded = a.magnitude fmt := by
    rw [← paddedEq, ofDigits_append_replicate_zero, MpInt.magnitude]
  -- every slot can be read, and is complemented
  have written : (range count).mapM (complementAt fmt a) = .ok (padded.map (fmt.base - 1 - ·)) := by
    rw [← paddedEq, ← map_range_getD a.digits enough, map_map]
    apply mapM_eq_ok
    intro i member
    have low : i < count := mem_range.mp member
    have digitLt : a.digits.getD i 0 < fmt.base := by
      rw [getD_eq_getElem?_getD]
      by_cases used : i < a.digits.length
      · rw [getElem?_eq_getElem used]
        exact valid.digits_lt _ (getElem_mem used)
      · rw [getElem?_eq_none (not_lt.mp used)]
        exact fmt.base_pos
    rw [complementAt, MpInt.digit, if_pos (by omega), ok_bind, Int.toNat_natCast,
      complement_digit digitLt]
    rfl
  have complementLt : ∀ digit ∈ padded.map (fmt.base - 1 - ·), digit < fmt.base := by
    intro digit member
    obtain ⟨other, _, rfl⟩ := mem_map.mp member
    have := fmt.base_pos
    omega
  have total := ofDigits_map_complement paddedLt
  rw [paddedLength, paddedValue] at total
  obtain ⟨start, startEq⟩ : ∃ start : MpInt,
      { mpGrow (mpZero b) count with digits := padded.map (fmt.base - 1 - ·) } = start :=
    ⟨_, rfl⟩
  have startSign : start.sign = .zpos := by
    rw [← startEq]
    exact mpGrow_sign count
  have startDigits : start.digits = padded.map (fmt.base - 1 - ·) := by
    rw [← startEq]
  obtain ⟨sumValid, sumValue⟩ := @mpAddD_of_zpos fmt start start 1
    startSign (by rw [startDigits]; exact complementLt) fmt.one_lt_base
  refine ⟨mpAddD fmt start 1 start, ?_, sumValid, ?_, ?_⟩
  · simp only [growAndNegate, countEq]
    rw [written, ok_bind, startEq]
  · rw [← MpInt.sign_ne_neg, Ne, ← sumValid.toInt_neg_iff, sumValue]
    omega
  · rw [← MpInt.Valid.natAbs_toInt, sumValue, Int.natAbs_natCast, MpInt.magnitude, startDigits,
      countEq]
    omega

theorem growAndNegate_eq_error (short : a.alloc < size) :
    growAndNegate fmt a size b = .error .outsideDigits := by
  have outside : complementAt fmt a a.alloc = .error .outsideDigits := by
    rw [complementAt, MpInt.digit, if_neg (by omega), error_bind]
  have only : ∀ i ∈ range (max size a.used), ∀ other,
      complementAt fmt a i = .error other → other = .outsideDigits := by
    intro i _ other failed
    unfold complementAt MpInt.digit at failed
    split at failed
    · cases failed
    · cases failed
      rfl
  have fails : (range (max size a.used)).mapM (complementAt fmt a) = .error .outsideDigits :=
    mapM_eq_error only (mem_range.mpr (short.trans_le (Nat.le_max_left _ _))) outside
  unfold growAndNegate
  dsimp only
  rw [fails, error_bind]

theorem top_and_eq_zero_iff (valid : c.Valid fmt) (nonempty : c.digits ≠ []) :
    c.digits.getLast nonempty &&& (1 <<< (fmt.digitBit - 1)) ≠ 0 ↔
      2 ^ (fmt.digitBit * c.used - 1) ≤ c.magnitude fmt := by
  have positive := digitBit_pos fmt
  have some : 0 < c.used := length_pos_of_ne_nil nonempty
  have topLt : c.digits.getLast nonempty < 2 ^ (fmt.digitBit - 1 + 1) := by
    rw [Nat.sub_add_cancel positive]
    exact valid.digits_lt _ (getLast_mem nonempty)
  have weight : 2 ^ (fmt.digitBit * c.used - 1) =
      2 ^ (fmt.digitBit - 1) * fmt.base ^ (c.used - 1) := by
    rw [DigitFormat.base, ← pow_mul, ← pow_add]
    congr 1
    obtain ⟨count, countEq⟩ := Nat.exists_eq_add_of_lt some
    rw [countEq, zero_add, Nat.add_sub_cancel, mul_succ]
    omega
  rw [one_shiftLeft, and_two_pow, Ne, mul_eq_zero, not_or]
  calc
    _ ↔ (c.digits.getLast nonempty).testBit (fmt.digitBit - 1) = true := by
      constructor
      · rintro ⟨set, _⟩
        simpa using set
      · intro set
        exact ⟨by simp [set], (Nat.two_pow_pos _).ne'⟩
    _ ↔ 2 ^ (fmt.digitBit - 1) ≤ c.digits.getLast nonempty := by
      constructor
      · exact ge_two_pow_of_testBit
      · intro atLeast
        exact testBit_of_two_pow_le_and_two_pow_add_one_gt atLeast topLt
    _ ↔ 2 ^ (fmt.digitBit * c.used - 1) ≤ c.magnitude fmt := by
      rw [getLast_eq_div fmt.one_lt_base nonempty valid.digits_lt, weight,
        Nat.le_div_iff_mul_le (Nat.pow_pos fmt.base_pos)]
      rfl

theorem yields_restoreSign_iff {d : MpInt} {value : Int} (valid : c.Valid fmt)
    (zpos : c.sign = .zpos) : Yields fmt (restoreSign fmt c d) value ↔ c.magnitude fmt ≠ 0 ∧
        value = if 2 ^ (fmt.digitBit * c.used - 1) ≤ c.magnitude fmt then
            (c.magnitude fmt : Int) - (fmt.base ^ c.used : Nat) else c.magnitude fmt := by
  rw [Ne, valid.magnitude_eq_zero_iff]
  by_cases none : c.digits = []
  · have outside : c.digit ((c.used : Int) - 1) = .error .outsideDigits := by
      rw [MpInt.digit, MpInt.used, none, if_neg]
      intro inside
      exact absurd inside.1 (by decide)
    rw [restoreSign, outside, error_bind]
    exact iff_of_false not_yields_error fun both => both.1 none
  have some : 0 < c.used := length_pos_of_ne_nil none
  have top : c.digit ((c.used : Int) - 1) = .ok (c.digits.getLast none) := by
    have index : ((c.used : Int) - 1).toNat = c.digits.length - 1 := by
      unfold MpInt.used at some ⊢
      omega
    have allocated := valid.used_le_alloc
    rw [MpInt.digit, if_pos (by omega), index, getLast_eq_getElem, getD_eq_getElem?_getD,
      getElem?_eq_getElem (sub_lt some (by decide)), Option.getD_some]
  have iff := top_and_eq_zero_iff valid none
  rw [restoreSign, top, ok_bind]
  by_cases set : 2 ^ (fmt.digitBit * c.used - 1) ≤ c.magnitude fmt
  · obtain ⟨negated, ran, negatedValid, negatedSign, negatedValue⟩ :=
      growAndNegate_spec (b := d) valid valid.used_le_alloc
    rw [max_self] at negatedValue
    have below := valid.magnitude_lt
    rw [if_pos (iff.mpr set), ran, ok_bind, yields_ok, toInt_mpNeg, toInt_mpCopy,
      MpInt.toInt_zpos negatedSign, negatedValue, if_pos set]
    constructor
    · intro means
      exact ⟨none, by omega⟩
    · rintro ⟨_, rfl⟩
      omega
  rw [if_neg (fun bit => set (iff.mp bit)), yields_ok, if_neg set, MpInt.toInt_zpos zpos]
  constructor
  · intro means
    exact ⟨none, means.symm⟩
  · rintro ⟨_, rfl⟩
    rfl

end RakudoStar.Bigint
