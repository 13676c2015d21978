import RakudoStar.Bigint.Numeral

/-!
# What is read

The loop consumes the longest numeral; its accumulators hold the value of the kept digits and
the matching power of the radix.
-/

namespace RakudoStar.Bigint

open RakudoStar.Except Rounding List Option Function

section

variable {α : Type} {acc : Accumulator α} {radix : Nat} {str : List Nat} {flags : Nat}
  {text : List Nat} {loop : Loop α}

/-- The four accumulators. -/
structure Amounts (α : Type) where
  zvalue : α
  zbase : α
  value : α
  base : α

/-- What a digit does to them. -/
def Amounts.push (acc : Accumulator α) (flags : Nat) (amounts : Amounts α) (digit : Nat) :
    Amounts α :=
  let zvalue := acc.push amounts.zvalue digit
  let zbase := acc.scale amounts.zbase
  let committed := digit ≠ 0 ∨ flags &&& 0x04 = 0
  { zvalue := zvalue
    zbase := zbase
    value := if committed then acc.store zvalue amounts.value else amounts.value
    base := if committed then acc.store zbase amounts.base else amounts.base }

def Loop.amounts (loop : Loop α) : Amounts α where
  zvalue := loop.zvalue
  zbase := loop.zbase
  value := loop.value
  base := loop.base

/-- The text that is left at a position inside a string. -/
structure AtText (str : List Nat) (loop : Loop α) (text : List Nat) : Prop where
  first : -(str.length : Int) ≤ loop.zpos
  text_eq : textFrom str loop.zpos = text
  ch_eq : ∀ {ch rest}, text = ch :: rest → loop.ch = ch

/-- What the loop leaves behind a text. -/
structure LoopEnds (acc : Accumulator α) (radix flags : Nat) (text : List Nat)
    (start result : Loop α) : Prop where
  amounts : result.amounts = (scanDigits radix text).1.foldl (Amounts.push acc flags) start.amounts
  pos : result.pos = if (scanDigits radix text).1 = [] then start.pos
    else start.zpos + (scanDigits radix text).2

@[simp]
theorem Loop.pushDigit_zpos (loop : Loop α) (digit : Nat) :
    (loop.pushDigit acc flags digit).zpos = loop.zpos + 1 :=
  rfl

@[simp]
theorem Loop.pushDigit_pos (loop : Loop α) (digit : Nat) :
    (loop.pushDigit acc flags digit).pos = loop.zpos + 1 :=
  rfl

theorem length_textFrom_of_atText
    (atText : AtText str loop text) : text.length = (str.length - loop.zpos).toNat := by
  rw [← atText.text_eq, length_textFrom atText.first]

theorem AtText.tail {ch : Nat} (atText : AtText str loop (ch :: text)) :
    loop.zpos < str.length ∧ textFrom str (loop.zpos + 1) = text := by
  have length := length_textFrom_of_atText atText
  rw [length_cons] at length
  have inside : loop.zpos < str.length := by omega
  obtain ⟨_, _, split⟩ := textFrom_eq_cons atText.first inside
  rw [atText.text_eq] at split
  exact ⟨inside, (List.cons.inj split).2.symm⟩

theorem AtText.second {ch next rounds : Nat}
    (atText : AtText str loop (ch :: next :: text)) (enough : text.length + 2 ≤ rounds) :
    ∃ more, rounds = more + 1 ∧ text.length + 1 ≤ more ∧
      text.length + 2 = (str.length - loop.zpos).toNat ∧ loop.zpos + 1 < str.length ∧
      stringOrd str (loop.zpos + 1) = .ok next ∧ textFrom str (loop.zpos + 1 + 1) = text := by
  have first := atText.first
  have length := length_textFrom_of_atText atText
  rw [length_cons, length_cons] at length
  have room : loop.zpos + 1 < str.length := by omega
  obtain ⟨read, ran, split⟩ := textFrom_eq_cons (by omega : _ ≤ loop.zpos + 1) room
  rw [atText.tail.2] at split
  obtain ⟨rfl, behind⟩ := List.cons.inj split
  exact ⟨rounds - 1, by omega, by omega, length, room, ran, behind.symm⟩

section

variable {start : Loop α} {rounds digit : Nat} (inside : start.zpos < str.length)
  (isDigit : IsDigit radix start.ch digit)

include inside isDigit

theorem radixLoop_last (last : (str.length : Int) ≤ start.zpos + 1) :
    radixLoop acc radix str flags (rounds + 1) start = .ok (start.pushDigit acc flags digit) := by
  rw [radixLoop, if_pos inside, isDigit.1]
  dsimp only
  rw [if_neg (not_le.mpr isDigit.2), Loop.pushDigit_zpos, if_pos last]

theorem radixLoop_digit {next : Nat} (more : start.zpos + 1 < str.length)
    (ran : stringOrd str (start.zpos + 1) = .ok next) :
    radixLoop acc radix str flags (rounds + 1) start = if next ≠ '_'.toNat then
        radixLoop acc radix str flags rounds { start.pushDigit acc flags digit with ch := next }
      else if (str.length : Int) ≤ start.zpos + 1 + 1 then
        .ok { start.pushDigit acc flags digit with zpos := start.zpos + 1 + 1, ch := next }
      else stringOrd str (start.zpos + 1 + 1) >>= fun ch =>
        radixLoop acc radix str flags rounds
          { start.pushDigit acc flags digit with zpos := start.zpos + 1 + 1, ch := ch } := by
  rw [radixLoop, if_pos inside, isDigit.1]
  dsimp only
  rw [if_neg (not_le.mpr isDigit.2), Loop.pushDigit_zpos, if_neg more.not_ge, ran, ok_bind]

end

/-- The loop reads the longest run of digits, with enough rounds. -/
theorem radixLoop_ends (text : List Nat) : ∀ {rounds : Nat} {start : Loop α},
    AtText str start text → text.length ≤ rounds →
    ∃ result, radixLoop acc radix str flags rounds start = .ok result ∧
      LoopEnds acc radix flags text start result := by
  induction text using scan_induction radix with
  | nil =>
    intro rounds start atText _
    have length := length_textFrom_of_atText atText
    rw [length_nil] at length
    refine ⟨start, ?_, rfl, rfl⟩
    cases rounds with
    | zero => rfl
    | succ rounds => exact if_neg (by omega)
  | @stop ch text noDigit =>
    intro rounds start atText enough
    obtain ⟨inside, _⟩ := atText.tail
    have scanned : scanDigits radix (ch :: text) = ([], 0) := scanDigits_cons_of_not_isDigit noDigit
    refine ⟨start, ?_, by rw [scanned]; rfl, by rw [scanned]; rfl⟩
    cases rounds with
    | zero => rfl
    | succ rounds =>
      rw [radixLoop, if_pos inside, atText.ch_eq rfl]
      cases value : digitOf ch with
      | none => rfl
      | some digit =>
        exact if_pos (not_lt.mp fun below => noDigit digit ⟨value, below⟩)
  | @single ch digit isDigit =>
    intro rounds start atText enough
    obtain ⟨inside, _⟩ := atText.tail
    have length := length_textFrom_of_atText atText
    rw [length_singleton] at length
    obtain ⟨more, rfl⟩ : ∃ more, rounds = more + 1 := ⟨rounds - 1, (Nat.sub_add_cancel enough).symm⟩
    rw [← atText.ch_eq rfl] at isDigit
    refine ⟨_, radixLoop_last inside isDigit (by omega), ?_, ?_⟩
    all_goals
      rw [← atText.ch_eq rfl, scanDigits_singleton isDigit]
      rfl
  | @next ch digit next text isDigit other ih =>
    intro rounds start atText enough
    obtain ⟨inside, behind⟩ := atText.tail
    have first := atText.first
    obtain ⟨more, rfl, fewer, -, room, ran, -⟩ := atText.second enough
    obtain ⟨result, rest, ends⟩ := @ih more
      { start.pushDigit acc flags digit with ch := next }
      ⟨first.trans (Int.le_add_one le_rfl), behind, fun same => (List.cons.inj same).1⟩
      fewer
    refine ⟨result, ?_, ?_, ?_⟩
    · rw [radixLoop_digit inside (by rw [atText.ch_eq rfl]; exact isDigit) room ran, if_pos other]
      exact rest
    · rw [scanDigits_next isDigit other, ends.amounts]
      rfl
    rw [scanDigits_next isDigit other, if_neg (cons_ne_nil _ _), ends.pos,
      Loop.pushDigit_zpos, Loop.pushDigit_pos]
    split
    · rw [scanDigits_snd_eq_zero ‹_›]
      rfl
    · push_cast
      ring
  | @underscore ch digit text isDigit ih =>
    intro rounds start atText enough
    have inside := atText.tail.1
    have first := atText.first
    obtain ⟨more, rfl, fewer, length, room, ran, behindBoth⟩ := atText.second enough
    have round := @radixLoop_digit _ acc radix str flags start more digit inside
      (by rw [atText.ch_eq rfl]; exact isDigit) _ room ran
    rw [if_neg (not_not.mpr rfl)] at round
    cases text with
    | nil =>
      rw [length_nil] at length
      rw [if_pos (by omega)] at round
      refine ⟨_, round, ?_, ?_⟩
      · rw [scanDigits_underscore isDigit]
        rfl
      · rw [scanDigits_underscore isDigit]
        rfl
    | cons following text =>
      rw [length_cons] at length
      obtain ⟨readNext, ranNext, splitNext⟩ :=
        textFrom_eq_cons (by omega : _ ≤ start.zpos + 1 + 1) (by omega : _ < (str.length : Int))
      rw [behindBoth] at splitNext
      obtain ⟨rfl, _⟩ := List.cons.inj splitNext
      obtain ⟨result, rest, ends⟩ := @ih more
        { start.pushDigit acc flags digit with zpos := start.zpos + 1 + 1, ch := following }
        ⟨by change _ ≤ start.zpos + 1 + 1; omega, behindBoth, fun same => (List.cons.inj same).1⟩
        (Nat.le_of_succ_le fewer)
      refine ⟨result, ?_, ?_, ?_⟩
      · rw [round, if_neg (by omega), ranNext, ok_bind]
        exact rest
      · rw [scanDigits_underscore isDigit, ends.amounts]
        rfl
      rw [scanDigits_underscore isDigit, if_neg (cons_ne_nil _ _), ends.pos, Loop.pushDigit_pos]
      split
      · rfl
      · push_cast
        ring

/-- Whether the flags ask for a sign. -/
def readsSign (flags : Nat) : Bool :=
  decide (flags &&& 0x02 ≠ 0)

structure Reading where
  negative : Bool
  digits : List Nat
  pos : Int

/-- The sign and the digits that the loop finds. -/
def reading (radix : Nat) (str : List Nat) (zpos : Int) (flags : Nat) : Reading :=
  let text := textFrom str zpos
  let sign := signOf (readsSign flags) text
  let found := scanDigits radix (behindSign (readsSign flags) text)
  { negative := sign.getD false
    digits := found.1
    pos := if found.1 = [] then -1 else zpos + (found.2 + if sign.isSome then 1 else 0 : Nat) }

variable (acc radix flags) in
theorem radixScan_ends (zero one : α) {zpos : Int} (first : -(str.length : Int) ≤ zpos) :
    ∃ result, radixScan acc radix str flags zero one zpos =
        .ok (result, (reading radix str zpos flags).negative) ∧
      result.amounts = (reading radix str zpos flags).digits.foldl (Amounts.push acc flags)
          ⟨zero, one, zero, one⟩ ∧ result.pos = (reading radix str zpos flags).pos := by
  simp only [reading]
  -- the loop from the position behind the sign
  have loop : ∀ (start : Loop α) {text : List Nat}, AtText str start text →
      ∃ result, radixLoop acc radix str flags (str.length - start.zpos).toNat start =
        .ok result ∧ LoopEnds acc radix flags text start result :=
    fun _ _ atText => radixLoop_ends _ atText (length_textFrom_of_atText atText).le
  have decided : ∀ ch, (flags &&& 0x02 ≠ 0 ∧ (ch = '+'.toNat ∨ ch = '-'.toNat)) ↔
      (readsSign flags = true ∧ (ch = '+'.toNat ∨ ch = '-'.toNat)) := by
    intro ch
    rw [readsSign, decide_eq_true_iff]
  rcases Int.lt_or_le zpos str.length with inside | beyond
  · obtain ⟨ch, ran, split⟩ := textFrom_eq_cons first inside
    have charRan : charAt str zpos = .ok ch := by
      rw [charAt, if_pos inside, ran]
    rw [split]
    by_cases sign : flags &&& 0x02 ≠ 0 ∧ (ch = '+'.toNat ∨ ch = '-'.toNat)
    · have signed : signOf (readsSign flags) (ch :: textFrom str (zpos + 1)) =
          some (decide (ch = '-'.toNat)) := if_pos ((decided ch).mp sign)
      obtain ⟨next, nextRan, nextEq⟩ : ∃ next, charAt str (zpos + 1) = .ok next ∧
          ∀ {other rest}, textFrom str (zpos + 1) = other :: rest → next = other := by
        rcases Int.lt_or_le (zpos + 1) str.length with more | last
        · obtain ⟨next, nextRan, nextSplit⟩ := textFrom_eq_cons (by omega) more
          refine ⟨next, by rw [charAt, if_pos more, nextRan], ?_⟩
          intro other rest same
          rw [nextSplit] at same
          exact (List.cons.inj same).1
        refine ⟨0, if_neg last.not_gt, ?_⟩
        intro other rest impossible
        rw [textFrom_of_le last] at impossible
        cases impossible
      obtain ⟨result, rest, ends⟩ := loop ⟨zero, one, zero, one, zpos + 1, -1, next⟩
        ⟨by change _ ≤ zpos + 1; omega, rfl, nextEq⟩
      refine ⟨result, ?_, ?_, ?_⟩
      · rw [radixScan, charRan, ok_bind]
        simp only [if_pos sign, signed, getD_some]
        rw [nextRan, ok_bind]
        rw [rest, ok_bind, decide_eq_decide.mpr (and_iff_right sign)]
      · rw [behindSign, signed]
        exact ends.amounts
      rw [behindSign, signed]
      refine ends.pos.trans ?_
      simp only [isSome_some, if_true, tail_cons]
      split
      · rfl
      · push_cast
        ring
    · have unsigned : signOf (readsSign flags) (ch :: textFrom str (zpos + 1)) = none :=
        if_neg fun both => sign ((decided ch).mpr both)
      obtain ⟨result, rest, ends⟩ := loop ⟨zero, one, zero, one, zpos, -1, ch⟩
        ⟨first, split, fun same => (List.cons.inj same).1⟩
      refine ⟨result, ?_, ?_, ?_⟩
      · rw [radixScan, charRan, ok_bind]
        simp only [if_neg sign, unsigned, getD_none]
        rw [ok_bind, rest, ok_bind, decide_eq_false fun both => sign both.1]
      · rw [behindSign, unsigned]
        exact ends.amounts
      · rw [behindSign, unsigned]
        exact ends.pos
  · have nothing := textFrom_of_le beyond
    have charRan : charAt str zpos = .ok 0 := if_neg beyond.not_gt
    have sign : ¬ (flags &&& 0x02 ≠ 0 ∧ (0 = '+'.toNat ∨ 0 = '-'.toNat)) := by
      rintro ⟨_, impossible | impossible⟩ <;> exact absurd impossible (by decide)
    obtain ⟨result, rest, ends⟩ := loop ⟨zero, one, zero, one, zpos, -1, 0⟩
      ⟨first, nothing, fun impossible => absurd impossible.symm (cons_ne_nil _ _)⟩
    rw [nothing]
    refine ⟨result, ?_, ends.amounts, ends.pos⟩
    rw [radixScan, charRan, ok_bind]
    simp only [if_neg sign]
    rw [ok_bind, rest, ok_bind, decide_eq_false fun both => sign both.1]
    rfl

/-- The digits, without the zeros at their end where the flags say so. -/
def keptDigits (flags : Nat) (digits : List Nat) : List Nat :=
  if flags &&& 0x04 = 0 then digits else digits.rdropWhile (· = 0)

variable (acc flags) in
theorem foldl_push (zero one : α) (digits : List Nat) :
    ∃ oldValue oldBase, digits.foldl (Amounts.push acc flags) ⟨zero, one, zero, one⟩ =
      { zvalue := digits.foldl acc.push zero
        zbase := acc.scale^[digits.length] one
        value := if keptDigits flags digits = [] then zero
          else acc.store ((keptDigits flags digits).foldl acc.push zero) oldValue
        base := if keptDigits flags digits = [] then one
          else acc.store (acc.scale^[(keptDigits flags digits).length] one) oldBase } := by
  induction digits using List.reverseRecOn with
  | nil =>
    refine ⟨zero, one, ?_⟩
    have none : keptDigits flags [] = [] := by
      unfold keptDigits
      split <;> rfl
    rw [if_pos none, if_pos none]
    rfl
  | append_singleton digits digit ih =>
    obtain ⟨oldValue, oldBase, folded⟩ := ih
    rw [foldl_append, folded, foldl_cons, foldl_nil, Amounts.push]
    by_cases committed : digit ≠ 0 ∨ flags &&& 0x04 = 0
    · have all : keptDigits flags (digits ++ [digit]) = digits ++ [digit] := by
        unfold keptDigits
        split
        · rfl
        · rw [rdropWhile_concat_neg]
          simpa using committed.resolve_right ‹_›
      have some : digits ++ [digit] ≠ [] :=
        append_ne_nil_of_right_ne_nil digits (cons_ne_nil digit [])
      refine ⟨if keptDigits flags digits = [] then zero
          else acc.store ((keptDigits flags digits).foldl acc.push zero) oldValue,
        if keptDigits flags digits = [] then one
          else acc.store (acc.scale^[(keptDigits flags digits).length] one) oldBase, ?_⟩
      simp only [if_pos committed, all, if_neg some, foldl_append, foldl_cons,
        foldl_nil, length_append, length_singleton, iterate_succ_apply']
    have same : keptDigits flags (digits ++ [digit]) = keptDigits flags digits := by
      rw [not_or, not_not] at committed
      unfold keptDigits
      rw [if_neg committed.2, if_neg committed.2, rdropWhile_concat_pos]
      simpa using committed.1
    refine ⟨oldValue, oldBase, ?_⟩
    simp only [if_neg committed, same, foldl_append, foldl_cons, foldl_nil,
      length_append, length_singleton, iterate_succ_apply']

end

variable {fmt : DigitFormat}

section

variable {radix flags n : Nat} {digits : List Nat}

/-- The number that digits denote, the most significant digit first. -/
def digitsValue (radix : Nat) (digits : List Nat) : Nat :=
  Nat.ofDigits radix digits.reverse

@[simp]
theorem digitsValue_append (digit : Nat) :
    digitsValue radix (digits ++ [digit]) = digitsValue radix digits * radix + digit := by
  rw [digitsValue, reverse_append, reverse_singleton, singleton_append,
    Nat.ofDigits_cons, digitsValue, mul_comm, add_comm]

theorem keptDigits_isPrefix (flags : Nat) (digits : List Nat) :
    keptDigits flags digits <+: digits := by
  unfold keptDigits
  split
  · exact prefix_refl digits
  · exact rdropWhile_prefix _ digits

theorem digitsValue_keptDigits (radix flags : Nat) (digits : List Nat) :
    digitsValue radix (keptDigits flags digits) * radix ^ digits.length =
      digitsValue radix digits * radix ^ (keptDigits flags digits).length := by
  unfold keptDigits
  split
  · rfl
  induction digits using List.reverseRecOn with
  | nil => rfl
  | append_singleton digits digit ih =>
    by_cases zero : digit = 0
    · rw [rdropWhile_concat_pos _ _ _ (by simpa using zero), digitsValue_append, zero,
        add_zero, length_append, length_singleton, pow_succ, ← mul_assoc, ih]
      ring
    · rw [rdropWhile_concat_neg _ _ _ (by simpa using zero)]

theorem foldl_bigint_push (bounded : radix ≤ 36) (digitsLt : ∀ digit ∈ digits, digit < radix) :
    (digits.foldl (bigintAccumulator fmt radix).push mpInit).Valid fmt ∧
      (digits.foldl (bigintAccumulator fmt radix).push mpInit).toInt fmt =
        digitsValue radix digits := by
  have room := fmt.oneTwentyEight_le_base
  induction digits using List.reverseRecOn with
  | nil => exact ⟨valid_mpInit, toInt_mpInit⟩
  | append_singleton digits digit ih =>
    have below := digitsLt digit (mem_append_right digits mem_cons_self)
    obtain ⟨valid, means⟩ := ih fun other member => digitsLt other (mem_append_left [digit] member)
    rw [foldl_append, foldl_cons, foldl_nil, digitsValue_append]
    generalize digits.foldl (bigintAccumulator fmt radix).push mpInit = zvalue at valid means
    obtain ⟨validMul, meansMul⟩ := mpMulD_spec (b := radix) (c := zvalue) valid (by omega)
    obtain ⟨validAdd, meansAdd⟩ :=
      mpAddD_spec (b := digit) (c := mpMulD fmt zvalue radix zvalue) validMul (by omega)
    refine ⟨validAdd, meansAdd.trans ?_⟩
    rw [meansMul, means]
    push_cast
    rfl

theorem iterate_bigint_scale (bounded : radix ≤ 36) {one : MpInt}
    (validOne : one.Valid fmt) (isOne : one.toInt fmt = 1) (count : Nat) :
    ((bigintAccumulator fmt radix).scale^[count] one).Valid fmt ∧
      ((bigintAccumulator fmt radix).scale^[count] one).toInt fmt = (radix ^ count : Nat) := by
  have room := fmt.oneTwentyEight_le_base
  induction count with
  | zero => exact ⟨validOne, isOne⟩
  | succ count ih =>
    obtain ⟨valid, means⟩ := ih
    rw [iterate_succ_apply', pow_succ]
    generalize (bigintAccumulator fmt radix).scale^[count] one = zbase at valid means
    obtain ⟨validMul, meansMul⟩ := mpMulD_spec (b := radix) (c := zbase) valid (by omega)
    refine ⟨validMul, meansMul.trans ?_⟩
    rw [means]
    push_cast
    rfl

/-- A natural number that a `double` holds. -/
def IsDouble (n : Nat) : Prop :=
  Representable 53 n ∧ n < doubleLimit

theorem Magnitude.ofNat_of_isDouble (isDouble : IsDouble n) : Magnitude.ofNat n = some n := by
  unfold Magnitude.ofNat
  rw [round_of_representable isDouble.1, if_pos isDouble.2]

theorem isDouble_zero : IsDouble 0 :=
  ⟨representable_of_lt (Nat.two_pow_pos 53), Nat.pow_pos two_pos⟩

theorem IsDouble.of_dvd {m : Nat} (isDouble : IsDouble n) (nonzero : n ≠ 0)
    (divides : m ∣ n) : IsDouble m :=
  ⟨isDouble.1.of_dvd nonzero divides,
    (Nat.le_of_dvd (Nat.pos_of_ne_zero nonzero) divides).trans_lt isDouble.2⟩

/-- The products and the last sum of the loop are numbers that a `double` holds. -/
def StepsAreDoubles (radix : Nat) (digits : List Nat) : Prop :=
  IsDouble (digitsValue radix digits) ∧
    ∀ first, first <+: digits → first ≠ digits → IsDouble (digitsValue radix first * radix)

theorem StepsAreDoubles.of_append {digit : Nat} (positive : 0 < radix)
    (steps : StepsAreDoubles radix (digits ++ [digit])) : StepsAreDoubles radix digits := by
  have shorter : ∀ {first : List Nat}, first <+: digits → first ≠ digits ++ [digit] := by
    rintro first isPrefix rfl
    have longer := isPrefix.length_le
    rw [length_append, length_singleton] at longer
    omega
  have extends' : digits <+: digits ++ [digit] := prefix_append digits [digit]
  have product := steps.2 digits extends' (shorter (prefix_refl digits))
  constructor
  · rcases eq_zero_or_pos (digitsValue radix digits) with zero | some
    · rw [zero]
      exact isDouble_zero
    · exact product.of_dvd (mul_pos some positive).ne' (dvd_mul_right _ _)
  · intro first isPrefix _
    exact steps.2 first (isPrefix.trans extends') (shorter isPrefix)

theorem foldl_float_push (positive : 0 < radix) (steps : StepsAreDoubles radix digits) :
    digits.foldl (floatAccumulator radix).push (some 0) = some (digitsValue radix digits) := by
  induction digits using List.reverseRecOn with
  | nil => rfl
  | append_singleton digits digit ih =>
    have product := steps.2 digits (prefix_append digits [digit]) (by simp)
    have sum := steps.1
    rw [digitsValue_append] at sum
    rw [foldl_append, ih (steps.of_append positive), foldl_cons, foldl_nil, digitsValue_append]
    simp only [floatAccumulator, bind_some, Magnitude.ofNat_of_isDouble product,
      Magnitude.ofNat_of_isDouble sum]

theorem iterate_float_scale (positive : 0 < radix) {count : Nat}
    (isDouble : IsDouble (radix ^ count)) :
    (floatAccumulator radix).scale^[count] (some 1) = some (radix ^ count) := by
  induction count with
  | zero => rfl
  | succ count ih =>
    have lower : IsDouble (radix ^ count) :=
      isDouble.of_dvd (Nat.pow_pos positive).ne' (Nat.pow_dvd_pow radix (Nat.le_succ count))
    rw [Nat.pow_succ] at isDouble
    rw [iterate_succ_apply', ih lower, pow_succ]
    simp only [floatAccumulator, bind_some, Magnitude.ofNat_of_isDouble isDouble]

end

variable {radix : Nat} {str : List Nat} {zpos : Int} {flags : Nat} {negative : Bool}

/-- What there is to read at a position: the longest numeral, or nothing. -/
inductive Reads (radix : Nat) (str : List Nat) (zpos : Int) (flags : Nat) :
    Bool → List Nat → Int → Prop
  | numeral {negative : Bool} {consumed digits : List Nat} :
      LongestNumeral radix (readsSign flags) (textFrom str zpos) negative consumed digits →
      Reads radix str zpos flags negative digits (zpos + consumed.length)
  | nothing {negative : Bool} : NoNumeral radix (readsSign flags) (textFrom str zpos) →
      Reads radix str zpos flags negative [] (-1)

def signedValue (radix flags : Nat) (negative : Bool) (digits : List Nat) : Int :=
  if negative = true ∨ flags &&& 0x01 ≠ 0 then -(digitsValue radix (keptDigits flags digits) : Int)
  else digitsValue radix (keptDigits flags digits)

theorem reads_reading (radix : Nat) (str : List Nat) (zpos : Int) (flags : Nat) :
    Reads radix str zpos flags (reading radix str zpos flags).negative
      (reading radix str zpos flags).digits (reading radix str zpos flags).pos := by
  simp only [reading]
  by_cases none : (scanDigits radix (behindSign (readsSign flags) (textFrom str zpos))).1 = []
  · rw [if_pos none, none]
    exact .nothing (noNumeral_of_scanDigits none)
  obtain ⟨consumed, longest, length⟩ := longestNumeral_of_scanDigits none
  rw [if_neg none, ← length]
  exact .numeral longest

theorem Reads.digits_lt {digits : List Nat} {pos : Int}
    (reads : Reads radix str zpos flags negative digits pos) : ∀ digit ∈ digits, digit < radix := by
  cases reads with
  | numeral longest =>
    cases longest.numeral with
    | bare run | plus _ run | minus _ run => exact run.digits_lt
  | nothing _ => exact fun _ impossible => nomatch impossible

/-- A run of `nqp_bigint_radix` on what there is to read. -/
structure BigintReads (fmt : DigitFormat) (radix flags : Nat) (negative : Bool)
    (digits : List Nat) (pos : Int) (result : BigintRadix) : Prop where
  value : result.value.toInt fmt = signedValue radix flags negative digits
  base : result.base.toInt fmt = (radix ^ (keptDigits flags digits).length : Nat)
  pos : result.pos = pos

/-- A run of `nqp_radix` that returns the same numbers. -/
structure FloatReads (radix flags : Nat) (negative : Bool) (digits : List Nat) (pos : Int)
    (result : FloatRadix) : Prop where
  value : result.value.toInt? = some (signedValue radix flags negative digits)
  base : result.base.toInt? = some (radix ^ (keptDigits flags digits).length : Nat)
  pos : result.pos.toInt? = some pos

theorem toInt?_floatval {n : Nat} :
    (Floatval.mk negative (some n)).toInt? = some (if negative = true then -(n : Int) else n) := by
  rfl

theorem toInt?_ofInt {value : Int} (isDouble : IsDouble value.natAbs) :
    (Floatval.ofInt value).toInt? = some value := by
  rw [Floatval.ofInt, Magnitude.ofNat_of_isDouble isDouble, toInt?_floatval]
  congr 1
  split
  · have negative := of_decide_eq_true ‹_›
    omega
  · have nonnegative := of_decide_eq_false (Bool.eq_false_of_not_eq_true ‹_›)
    omega

theorem nqpBigintRadix_reads (bounded : radix ≤ 36) (first : -(str.length : Int) ≤ zpos) :
    ∃ result, nqpBigintRadix fmt radix str zpos flags = .ok result ∧
      BigintReads fmt radix flags (reading radix str zpos flags).negative
        (reading radix str zpos flags).digits (reading radix str zpos flags).pos result := by
  obtain ⟨one, oneRan, validOne, isOne⟩ := mpSetInt_one fmt mpInit
  obtain ⟨loop, ran, amounts, pos⟩ := radixScan_ends (bigintAccumulator fmt radix)
    radix flags mpInit one first
  have digitsLt := (reads_reading radix str zpos flags).digits_lt
  generalize reading radix str zpos flags = found at ran amounts pos digitsLt ⊢
  obtain ⟨oldValue, oldBase, folded⟩ :=
    foldl_push (bigintAccumulator fmt radix) flags mpInit one found.digits
  rw [folded] at amounts
  have keptLt : ∀ digit ∈ keptDigits flags found.digits, digit < radix := fun digit member =>
    digitsLt digit ((keptDigits_isPrefix flags found.digits).subset member)
  have value : loop.value.toInt fmt = digitsValue radix (keptDigits flags found.digits) := by
    have valueEq := congrArg Amounts.value amounts
    change loop.value = _ at valueEq
    rw [valueEq]
    split
    · rw [‹keptDigits flags found.digits = []›]
      exact toInt_mpInit
    · exact (foldl_bigint_push bounded keptLt).2
  have base : loop.base.toInt fmt = (radix ^ (keptDigits flags found.digits).length : Nat) := by
    have baseEq := congrArg Amounts.base amounts
    change loop.base = _ at baseEq
    rw [baseEq]
    split
    · rw [‹keptDigits flags found.digits = []›]
      exact isOne
    · exact (iterate_bigint_scale bounded validOne isOne _).2
  refine ⟨⟨if found.negative = true ∨ flags &&& 0x01 ≠ 0 then mpNeg loop.value else loop.value,
    loop.base, loop.pos⟩, ?_, ?_⟩
  · rw [nqpBigintRadix, if_neg bounded.not_gt, oneRan]
    change (radixScan _ _ _ _ _ _ _ >>= _) = _
    rw [ran, ok_bind]
  refine ⟨?_, base, pos⟩
  rw [signedValue]
  split
  · rw [toInt_mpNeg, value]
  · exact value

/-- `nqp_radix` returns the same number, as long as nothing is rounded. -/
theorem nqpRadix_reads (positive : 0 < radix) (bounded : radix ≤ 36)
    (first : -(str.length : Int) ≤ zpos)
    (steps : StepsAreDoubles radix (keptDigits flags (reading radix str zpos flags).digits))
    (base : IsDouble (radix ^ (keptDigits flags (reading radix str zpos flags).digits).length))
    (pos : IsDouble (reading radix str zpos flags).pos.natAbs) :
    ∃ result, nqpRadix radix str zpos flags = .ok result ∧
      FloatReads radix flags (reading radix str zpos flags).negative
        (reading radix str zpos flags).digits (reading radix str zpos flags).pos result := by
  obtain ⟨loop, ran, amounts, posEq⟩ := radixScan_ends (floatAccumulator radix)
    radix flags (some 0) (some 1) first
  generalize reading radix str zpos flags = found at ran amounts posEq steps base pos ⊢
  obtain ⟨oldValue, oldBase, folded⟩ := foldl_push (floatAccumulator radix)
    flags (some 0) (some 1) found.digits
  rw [folded] at amounts
  have value : loop.value = some (digitsValue radix (keptDigits flags found.digits)) := by
    have valueEq := congrArg Amounts.value amounts
    change loop.value = _ at valueEq
    rw [valueEq]
    split
    · rw [‹keptDigits flags found.digits = []›]
      rfl
    · exact foldl_float_push positive steps
  have baseValue : loop.base = some (radix ^ (keptDigits flags found.digits).length) := by
    have baseEq := congrArg Amounts.base amounts
    change loop.base = _ at baseEq
    rw [baseEq]
    split
    · rw [‹keptDigits flags found.digits = []›]
      rfl
    · exact iterate_float_scale positive base
  refine ⟨⟨⟨decide (found.negative = true ∨ flags &&& 0x01 ≠ 0), loop.value⟩,
    ⟨false, loop.base⟩, .ofInt loop.pos⟩, ?_, ?_⟩
  · rw [nqpRadix, if_neg bounded.not_gt, ran, ok_bind]
  refine ⟨?_, ?_, ?_⟩
  · simp only [value, toInt?_floatval, signedValue, decide_eq_true_eq]
  · simp only [baseValue, toInt?_floatval]
    rfl
  · simp only [posEq, toInt?_ofInt pos]

/-- Both operators read the longest numeral from a position on; the floating point one gives
the same three numbers when these, and the products its loop goes through, are not
rounded. -/
theorem radix_operators_read (fmt : DigitFormat) (str : List Nat) (zpos : Int) (flags : Nat)
    (atLeastTwo : 2 ≤ radix) (bounded : radix ≤ 36) : if -(str.length : Int) ≤ zpos then
      ∃ negative digits pos, Reads radix str zpos flags negative digits pos ∧
        digitsValue radix (keptDigits flags digits) * radix ^ digits.length =
          digitsValue radix digits * radix ^ (keptDigits flags digits).length ∧
        (∃ result, nqpBigintRadix fmt radix str zpos flags = .ok result ∧
          BigintReads fmt radix flags negative digits pos result) ∧
        (StepsAreDoubles radix (keptDigits flags digits) →
          IsDouble (radix ^ (keptDigits flags digits).length) → IsDouble pos.natAbs →
          ∃ result, nqpRadix radix str zpos flags = .ok result ∧
            FloatReads radix flags negative digits pos result) else
      ∃ message, nqpBigintRadix fmt radix str zpos flags = .error (.ordOutOfString message) ∧
        nqpRadix radix str zpos flags = .error (.ordOutOfString message) := by
  split
  · exact ⟨_, _, _, reads_reading radix str zpos flags, digitsValue_keptDigits _ _ _,
      nqpBigintRadix_reads bounded ‹_›, nqpRadix_reads (by omega) bounded ‹_›⟩
  have before : zpos < -(str.length : Int) := not_le.mp ‹_›
  obtain ⟨one, oneRan, _, _⟩ := mpSetInt_one fmt mpInit
  obtain ⟨message, failed⟩ := stringOrd_of_lt before
  have scan : ∀ {α : Type} (acc : Accumulator α) (zero one : α),
      radixScan acc radix str flags zero one zpos = .error (.ordOutOfString message) := by
    intro α acc zero one
    rw [radixScan, charAt, if_pos (by omega), failed, error_bind]
  refine ⟨message, ?_, ?_⟩
  · rw [nqpBigintRadix, if_neg bounded.not_gt, oneRan]
    change (radixScan _ _ _ _ _ _ _ >>= _) = _
    rw [scan, error_bind]
  · rw [nqpRadix, if_neg bounded.not_gt, scan, error_bind]

/-- The text `12` in radix ten. -/
theorem radix_operators_read_twelve : ∃ negative digits pos,
      Reads 10 ['1'.toNat, '2'.toNat] 0 0 negative digits pos ∧
        digitsValue 10 (keptDigits 0 digits) * 10 ^ digits.length =
          digitsValue 10 digits * 10 ^ (keptDigits 0 digits).length ∧
        (∃ result, nqpBigintRadix .mp64Bit 10 ['1'.toNat, '2'.toNat] 0 0 = .ok result ∧
          BigintReads .mp64Bit 10 0 negative digits pos result) ∧
        (StepsAreDoubles 10 (keptDigits 0 digits) →
          IsDouble (10 ^ (keptDigits 0 digits).length) → IsDouble pos.natAbs →
          ∃ result, nqpRadix 10 ['1'.toNat, '2'.toNat] 0 0 = .ok result ∧
            FloatReads 10 0 negative digits pos result) := by
  have applied := radix_operators_read .mp64Bit ['1'.toNat, '2'.toNat] 0 0
    (by decide : 2 ≤ 10) (by decide)
  rwa [if_pos (by decide)] at applied

/-- The text of a multiple of four above `2 ^ 54`. -/
def seventeenDigits : List Nat :=
  "18019551023933236".toList.map Char.toNat

/-- Its value, the power of the radix and the position are numbers that a `double` holds,
but the value is not what `nqp_radix` returns: the loop rounds twice on its last digit. -/
theorem nqpRadix_seventeenDigits : IsDouble 18019551023933236 ∧ IsDouble (10 ^ 17) ∧ IsDouble 17 ∧
      (∃ result, nqpBigintRadix .mp64Bit 10 seventeenDigits 0 0 = .ok result ∧
        result.value.toInt .mp64Bit = 18019551023933236 ∧
        result.base.toInt .mp64Bit = 10 ^ 17 ∧ result.pos = 17) ∧
      ∃ result, nqpRadix 10 seventeenDigits 0 0 = .ok result ∧
        result.value.toInt? = some 18019551023933240 := by
  refine ⟨⟨⟨4504887755983309, 2, by decide, by decide⟩, by decide +kernel⟩,
    ⟨⟨762939453125, 17, by decide, by decide⟩, by decide +kernel⟩,
    ⟨representable_of_lt (by decide), by decide +kernel⟩, ?_, ?_⟩
  · have ran : nqpBigintRadix .mp64Bit 10 seventeenDigits 0 0 =
        .ok ⟨⟨.zpos, [18019551023933236], 32⟩, ⟨.zpos, [100000000000000000], 32⟩, 17⟩ := by
      decide +kernel
    exact ⟨_, ran, by decide, by decide, rfl⟩
  have ran : nqpRadix 10 seventeenDigits 0 0 =
      .ok ⟨⟨false, some 18019551023933240⟩, ⟨false, some 100000000000000000⟩,
        ⟨false, some 17⟩⟩ := by
    decide +kernel
  exact ⟨_, ran, rfl⟩

end RakudoStar.Bigint
