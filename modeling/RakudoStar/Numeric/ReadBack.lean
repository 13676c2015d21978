import RakudoStar.Numeric.Written

/-!
# Reading back what was written

The texts of integers and fractions are read back, and so is every numeral whose integer part
is there or which has no radix specifier.
-/

namespace RakudoStar.Numeric

open Bigint RakudoStar.Except List Option Nat Int

variable {fmt : DigitFormat} {N : Type} {reader : Reader fmt N} {radix ch : Nat} {base : Int}

theorem digitOf_mpSRmap : ∀ digit < 36, digitOf (mpSRmap.getD digit 0) = some digit := by
  decide

theorem digitRun_map (bounded : radix ≤ 36) {digits : List Nat} (nonempty : digits ≠ [])
    (below : ∀ digit ∈ digits, digit < radix) :
    DigitRun radix (digits.map fun digit => mpSRmap.getD digit 0) digits := by
  induction digits with
  | nil => exact absurd rfl nonempty
  | cons digit digits ih =>
    rw [forall_mem_cons] at below
    have isDigit : IsDigit radix (mpSRmap.getD digit 0) digit :=
      ⟨digitOf_mpSRmap digit (lt_of_lt_of_le below.1 bounded), below.1⟩
    cases digits with
    | nil => exact .last isDigit
    | cons next digits => exact .next isDigit (ih (cons_ne_nil _ _) below.2)

/-- The digits that `mp_toradix_n` writes. -/
def writtenDigits (radix n : Nat) : List Nat := if n = 0 then [0] else (Nat.digits radix n).reverse

theorem toradix_eq (radix n : Nat) :
    toradix radix n = (writtenDigits radix n).map fun digit => mpSRmap.getD digit 0 := by
  rw [toradix, writtenDigits]
  split
  · rfl
  · rfl

theorem digitRun_toradix (low : 2 ≤ radix) (bounded : radix ≤ 36) (n : Nat) :
    DigitRun radix (toradix radix n) (writtenDigits radix n) := by
  rw [toradix_eq]
  refine digitRun_map bounded ?_ ?_
  · rw [writtenDigits]
    split
    · exact cons_ne_nil 0 []
    · next nonzero => simpa using digits_ne_nil_iff_ne_zero.mpr nonzero
  intro digit member
  rw [writtenDigits] at member
  split at member
  · rw [mem_singleton.mp member]
    omega
  · exact digits_lt_base (by omega) (mem_reverse.mp member)

theorem digitsValue_writtenDigits (radix n : Nat) :
    digitsValue radix (writtenDigits radix n) = n := by
  rw [writtenDigits]
  split
  · next zero =>
      rw [zero]
      rfl
  · rw [digitsValue, reverse_reverse, ofDigits_digits]

/-- The digits of a number as they are written. -/
def digitsOf (low : 2 ≤ radix) (bounded : radix ≤ 36) (n : Nat) : Digits radix :=
  ⟨toradix radix n, writtenDigits radix n, digitRun_toradix low bounded n⟩

theorem digitsOf_value (low : 2 ≤ radix) (bounded : radix ≤ 36) (n : Nat) :
    (digitsOf low bounded n).value = n := digitsValue_writtenDigits radix n

def wholeNumeral (low : 2 ≤ radix) (bounded : radix ≤ 36) (n : Nat) : Fractional radix :=
  ⟨some (digitsOf low bounded n), none, .inl rfl⟩

theorem wholeNumeral_number (low : 2 ≤ radix) (bounded : radix ≤ 36) (n : Nat) (neg : Bool) :
    ((wholeNumeral low bounded n).number neg : RealNumber N) = .int (if neg then -n else n) := by
  refine number_of_int rfl rfl neg ?_
  rw [digitsOf_value]
  cases neg <;> simp [signed]

def writtenInt (n : Int) : Written where
  sign := if n < 0 then some true else none
  specifier := .plain
  numeral := wholeNumeral (by decide) (by decide) n.natAbs
  bounded := by decide

theorem writtenInt_readable (n : Int) : (writtenInt n).Readable := .inl rfl

theorem writtenInt_text (n : Int) : (writtenInt n).text = intStr n := by
  rw [Written.text, Written.body, intStr, baseI, writtenInt]
  split
  all_goals
    simp [signText, Specifier.opening, Specifier.closing, wholeNumeral, Fractional.text, digitsOf,
      Specifier.radix]

theorem writtenInt_number (n : Int) : ((writtenInt n).number : RealNumber N) = .int n := by
  have number := @wholeNumeral_number N 10 (by decide) (by decide) n.natAbs (writtenInt n).neg
  refine number.trans ?_
  rw [Written.neg, writtenInt]
  split
  · next negative =>
      rw [ofNat_natAbs_of_nonpos negative.le]
      simp
  next nonneg =>
    rw [natAbs_of_nonneg (not_lt.mp nonneg)]
    simp

/-- Some characters that are not white space. -/
def Dark (ch : Nat) : Prop := 33 ≤ ch ∧ ch < 128 ∨ ch = 171 ∨ ch = 187

theorem Dark.not_whitespace (dark : Dark ch) (reader : Reader fmt N) :
    reader.isWhitespace ch = false := by
  rw [Dark] at dark
  rw [Reader.isWhitespace, if_pos (by omega)]
  exact decide_eq_false (by omega)

theorem dark_of_isDigit {digit : Nat} (isDigit : IsDigit radix ch digit) : Dark ch := by
  have value := isDigit.1
  rw [digitOf] at value
  simp only [Char.reduceToNat] at value
  rw [Dark]
  split at value
  · omega
  split at value
  · omega
  split at value
  · omega
  · cases value

theorem dark_of_run {front digits : List Nat} (run : DigitRun radix front digits) :
    ∀ ch ∈ front, Dark ch := by
  intro ch member
  rcases mem_digitRun run ch member with rfl | ⟨digit, isDigit⟩
  · exact .inl (by decide)
  · exact dark_of_isDigit isDigit

theorem dark_of_fractional (numeral : Fractional radix) : ∀ ch ∈ numeral.text, Dark ch := by
  intro ch member
  rcases mem_fractional numeral ch member with rfl | rfl | ⟨digit, isDigit⟩
  · exact .inl (by decide)
  · exact .inl (by decide)
  · exact dark_of_isDigit isDigit

instance (ch : Nat) : Decidable (Dark ch) := inferInstanceAs (Decidable (_ ∨ _))

theorem Written.dark (written : Written) : ∀ ch ∈ written.text, Dark ch := by
  rcases written with ⟨sign, specifier, numeral, bounded⟩
  have inNumeral := dark_of_fractional numeral
  have inSign : ∀ ch ∈ signText sign, Dark ch := by
    rcases sign with _ | _ | _ <;> decide
  have inClosing : ∀ ch ∈ specifier.closing, Dark ch := by
    cases specifier <;> simp [Specifier.closing, Dark]
  have inOpening : ∀ ch ∈ specifier.opening, Dark ch := by
    cases specifier with
    | plain => simp [Specifier.opening]
    | lettered letter underscore =>
      cases letter <;> cases underscore <;> simp [Specifier.opening, PrefixLetter.code, Dark]
    | angle radix | quotes radix =>
      simp only [Specifier.opening, forall_mem_cons, forall_mem_append]
      exact ⟨by decide, dark_of_run radix.run, by decide, by simp⟩
  simp only [text, body, forall_mem_append]
  exact ⟨inSign, inOpening, inNumeral, inClosing⟩

theorem numeric_of_dark {text : List Nat} (nonempty : text ≠ []) (dark : ∀ ch ∈ text, Dark ch) :
    reader.firstPos text = 0 ∧ reader.endPos text = text.length := by
  have first : ∀ front : List Nat, (∀ ch ∈ front, Dark ch) → front ≠ [] →
      front.findIdx (fun ch => !reader.isWhitespace ch) = 0 := by
    intro front inFront isThere
    cases front with
    | nil => exact absurd rfl isThere
    | cons ch rest =>
      rw [findIdx_cons, (inFront ch mem_cons_self).not_whitespace reader]
      rfl
  refine ⟨first text dark nonempty, ?_⟩
  rw [Reader.endPos, first text.reverse (fun ch member => dark ch (mem_reverse.mp member))
    (by simpa using nonempty), Nat.sub_zero]

theorem text_ne_nil (written : Written) : written.text ≠ [] := by
  obtain ⟨ch, rest, text, _⟩ := fractional_head written.numeral
  intro none
  have length := written.text_length
  rw [none, text] at length
  simp at length
  omega

theorem numeric_written (reader : Reader fmt N) (written : Written) (readable : written.Readable) :
    reader.numeric written.text = .ok (.real written.number) := by
  obtain ⟨first, last⟩ := @numeric_of_dark fmt N reader _ (text_ne_nil written) written.dark
  have positive := length_pos_of_ne_nil (text_ne_nil written)
  have split : written.text.drop 0 = written.text ++ [] := (append_nil _).symm
  have parse := parseSimpleNumber_written reader written readable ends_nil split written.text.length
  rw [zero_add] at parse
  rw [Reader.numeric]
  rw [first, last, if_neg positive.not_ge, parseReal, parse]
  simp [ok_bind]

theorem numeric_written_fails (reader : Reader fmt N) (written : Written)
    (unreadable : ¬ written.Readable) :
    ∃ failure, reader.numeric written.text = .error failure := by
  obtain ⟨first, last⟩ := @numeric_of_dark fmt N reader _ (text_ne_nil written) written.dark
  have positive := length_pos_of_ne_nil (text_ne_nil written)
  have split : written.text.drop 0 = written.text ++ [] := (append_nil _).symm
  obtain ⟨failure, parse⟩ := parseSimpleNumber_fails reader written unreadable split
    written.text.length
  rw [Reader.numeric]
  rw [first, last, if_neg positive.not_ge, parseReal, parse]
  exact ⟨failure, rfl⟩

theorem numeric_fraction (reader : Reader fmt N) (n : Int) {d : Int} (nonzero : d ≠ 0) :
    reader.numeric (intStr n ++ codes "/" ++ intStr d) = .ok (.real (.rat (.ofRat (n / d)))) := by
  rw [← writtenInt_text n, ← writtenInt_text d]
  generalize textEq : (writtenInt n).text ++ codes "/" ++ (writtenInt d).text = text
  have shape : text = (writtenInt n).text ++ 47 :: (writtenInt d).text := by
    rw [← textEq, append_assoc]
    rfl
  have dark : ∀ ch ∈ text, Dark ch := by
    rw [shape]
    simp only [forall_mem_append, forall_mem_cons]
    exact ⟨(writtenInt n).dark, by decide, (writtenInt d).dark⟩
  have nonempty : text ≠ [] := by
    rw [shape]
    simp
  obtain ⟨first, last⟩ := @numeric_of_dark fmt N reader _ nonempty dark
  have positive := length_pos_of_ne_nil nonempty
  have lengthD := length_pos_of_ne_nil (text_ne_nil (writtenInt d))
  have length : text.length = (writtenInt n).text.length + 1 + (writtenInt d).text.length := by
    rw [shape, length_append, length_cons]
    omega
  have ends : Ends (47 :: (writtenInt d).text) := ⟨.cons (by decide) (by decide) _, by simp⟩
  have split : text.drop 0 = (writtenInt n).text ++ 47 :: (writtenInt d).text := shape
  have numerator := parseSimpleNumber_written reader (writtenInt n) (writtenInt_readable n) ends
    split text.length
  rw [zero_add, writtenInt_number] at numerator
  have slash : text.drop (writtenInt n).text.length = 47 :: (writtenInt d).text := by
    rw [shape, drop_left]
  have behind : text.drop ((writtenInt n).text.length + 1) = (writtenInt d).text ++ [] := by
    rw [← drop_drop, slash, append_nil]
    rfl
  have denominator := parseSimpleNumber_written reader (writtenInt d) (writtenInt_readable d)
    ends_nil behind text.length
  rw [writtenInt_number, ← length] at denominator
  have more : (writtenInt n).text.length + 1 < text.length := by omega
  rw [Reader.numeric]
  rw [first, last, if_neg positive.not_ge, parseReal, numerator, ok_bind]
  dsimp only
  rw [if_neg (by omega), ord_eq slash, ok_bind, if_pos rfl, if_pos more, denominator, ok_bind]
  rw [quotient, reduce_eq nonzero]
  simp [ok_bind]

theorem toradix_head (low : 2 ≤ radix) (bounded : radix ≤ 36) {n : Nat} (nonzero : n ≠ 0) :
    ∃ ch rest, toradix radix n = ch :: rest ∧ ch ≠ 48 := by
  have nonempty : Nat.digits radix n ≠ [] := digits_ne_nil_iff_ne_zero.mpr nonzero
  have last := getLast_digit_ne_zero radix nonzero
  have below := digits_lt_base (by omega) (getLast_mem nonempty)
  have split : toradix radix n = (mpSRmap.getD ((Nat.digits radix n).getLast nonempty) 0) ::
      ((Nat.digits radix n).dropLast.reverse.map fun digit => mpSRmap.getD digit 0) := by
    rw [toradix, if_neg nonzero]
    conv_lhs => rw [← dropLast_append_getLast nonempty]
    simp
  refine ⟨_, _, split, fun zero => ?_⟩
  have digit := digitOf_mpSRmap _ (below.trans_le bounded)
  rw [zero] at digit
  exact last (some.inj digit).symm

theorem substr_baseI (low : 2 ≤ radix) (bounded : radix ≤ 36) (n : Int) (letter : Nat) :
    substr (baseI radix n) 0 2 ≠ [48, letter] := by
  rw [substr, drop_zero, baseI]
  split
  · exact fun same => absurd (List.cons.inj same).1 (by decide)
  by_cases zero : n.natAbs = 0
  · rw [zero]
    exact fun same => by cases same
  obtain ⟨ch, rest, split, notZero⟩ := toradix_head low bounded zero
  rw [split]
  exact fun same => notZero (List.cons.inj same).1

theorem unbase_baseI (reader : Reader fmt N) (low : 2 ≤ base) (bounded : base ≤ 36)
    (n : Int) : reader.unbase base (baseI base.toNat n) =
      reader.numeric (58 :: (toradix 10 base.toNat ++ 60 :: (baseI base.toNat n ++ [62]))) := by
  have notPrefix : ∀ letter : Nat, substr (baseI base.toNat n) 0 2 ≠ [48, letter] :=
    substr_baseI (by omega) (by omega) n
  have baseText : intStr base = toradix 10 base.toNat := by
    rw [intStr, baseI, if_neg (by omega)]
    congr 1
    omega
  have prefixes : codes "0x" = [48, 120] ∧ codes "0d" = [48, 100] ∧ codes "0o" = [48, 111] ∧
      codes "0b" = [48, 98] := by decide
  rw [Reader.unbase, prefixes.1, prefixes.2.1, prefixes.2.2.1, prefixes.2.2.2,
    if_neg (by simp [notPrefix]),
    baseText]
  congr 1
  simp [codes]

/-- A number that is not negative, with its radix in front. -/
def writtenBase {base : Int} (low : 2 ≤ base) (bounded : base ≤ 36) (n : Nat) : Written where
  sign := none
  specifier := .angle (digitsOf (by decide) (by decide) base.toNat)
  numeral := wholeNumeral (by rw [Specifier.radix, digitsOf_value]; omega)
    (by rw [Specifier.radix, digitsOf_value]; omega) n
  bounded := by
    rw [Specifier.radix, digitsOf_value]
    omega

theorem unbase_of_nonneg (reader : Reader fmt N) (low : 2 ≤ base) (bounded : base ≤ 36)
    (n : Nat) : reader.unbase base (baseI base.toNat n) = .ok (.real (.int n)) := by
  have readable : (writtenBase low bounded n).Readable := .inr (some_ne_none _)
  have number : ((writtenBase low bounded n).number : RealNumber N) = .int n :=
    wholeNumeral_number _ _ n false
  have radix : (writtenBase low bounded n).specifier.radix = base.toNat :=
    digitsOf_value _ _ base.toNat
  have text : (writtenBase low bounded n).text =
      58 :: (toradix 10 base.toNat ++ 60 :: (baseI base.toNat n ++ [62])) := by
    have digits : (writtenBase low bounded n).numeral.text = toradix base.toNat n := by
      rw [← radix]
      exact append_nil _
    rw [Written.text, Written.body, digits, baseI, if_neg (by omega)]
    simp [writtenBase, signText, Specifier.opening, Specifier.closing, digitsOf]
  rw [unbase_baseI reader low bounded, ← text, numeric_written reader _ readable, number]

theorem unbase_of_neg (reader : Reader fmt N) (low : 2 ≤ base) (bounded : base ≤ 36)
    {n : Int} (negative : n < 0) :
    ∃ failure, reader.unbase base (baseI base.toNat n) = .error failure := by
  rw [unbase_baseI reader low bounded]
  generalize textEq : 58 :: (toradix 10 base.toNat ++ 60 :: (baseI base.toNat n ++ [62])) = text
  have minus : baseI base.toNat n = 45 :: toradix base.toNat n.natAbs := if_pos negative
  have radix := @digitsOf_value 10 (by decide) (by decide) base.toNat
  have small : (@digitsOf 10 (by decide) (by decide) base.toNat).value ≤ 36 := by omega
  have dark : ∀ ch ∈ text, Dark ch := by
    rw [← textEq, minus]
    simp only [forall_mem_append, forall_mem_cons]
    exact ⟨by decide, dark_of_run (digitRun_toradix (by decide) (by decide) _), by decide,
      ⟨by decide, dark_of_run (digitRun_toradix (by omega) (by omega) _)⟩, by decide, by simp⟩
  have nonempty : text ≠ [] := by
    rw [← textEq]
    exact cons_ne_nil _ _
  obtain ⟨first, last⟩ := @numeric_of_dark fmt N reader _ nonempty dark
  have positive := length_pos_of_ne_nil nonempty
  have split : text.drop 0 = signText none ++ 58 ::
      ((@digitsOf 10 (by decide) (by decide) base.toNat).text ++
        60 :: (baseI base.toNat n ++ [62])) := textEq.symm
  obtain ⟨simple, pos, reason, _, parse, behind⟩ :=
    @parseSimpleNumber_bracketed fmt N text 0 reader none text.length _ _ small 60 62 .angle split
  have stops : Stops (text.drop pos) := by
    rw [behind, minus]
    exact .cons (by decide) (by decide) _
  obtain ⟨failure, closed⟩ := @parseClosed_fails fmt N _ text pos reader 60 62 .angle small stops
    false simple reason
  rw [Reader.numeric]
  rw [first, last, if_neg positive.not_ge, parseReal, parse.trans closed]
  exact ⟨failure, rfl⟩

def RealNumber.exact : RealNumber N → Option ℚ
  | .int i => some i
  | .rat r => some r.toRat
  | .num _ => none

theorem Written.number_exact (written : Written) :
    (written.number : RealNumber N).exact = some written.value := by
  rw [number, value, Fractional.number]
  cases frac : written.numeral.frac with
  | some _ =>
    dsimp only [RealNumber.exact]
    rw [Rational.toRat_ofRat]
  | none =>
    obtain ⟨int, isInt⟩ := isSome_iff_exists.mp
      (written.numeral.nonempty.resolve_right (by simp [frac]))
    have whole : signed written.neg written.numeral.value =
        ((if written.neg then -(int.value : Int) else int.value : Int) : ℚ) := by
      rw [Fractional.value, isInt, frac, elim_some, elim_none, add_zero, signed]
      split
      · rw [cast_neg, cast_natCast]
      · rw [cast_natCast]
    dsimp only [RealNumber.exact]
    rw [whole, Rat.num_intCast]

/-- `Numeric` gives the value of what is written. -/
def ReadsValue (reader : Reader fmt N) (written : Written) : Prop :=
  ∃ r, reader.numeric written.text = .ok (.real r) ∧ r.exact = some written.value

/-- Integers that are not negative come back from every base, all integers and fractions from
their texts, and numerals exactly if they have an integer part or no radix specifier. -/
theorem text_reads_back (reader : Reader fmt N) :
    (∀ n base : Int, 2 ≤ base → base ≤ 36 → ∃ text, intBase n base = some text ∧
      (reader.unbase base text = .ok (.real (.int n)) ↔ 0 ≤ n)) ∧
    (∀ n, reader.numeric (intStr n) = .ok (.real (.int n))) ∧ (∀ n d : Int, 0 < d → ∃ r : Rational,
      reader.numeric (intStr n ++ codes "/" ++ intStr d) = .ok (.real (.rat r)) ∧ r.toRat = n / d) ∧
    ∀ written, ReadsValue reader written ↔ written.Readable := by
  refine ⟨fun n base low bounded => ⟨_, if_pos ⟨low, bounded⟩, ?_⟩, fun n => ?_,
    fun n d positive => ?_, fun written => ?_⟩
  · constructor
    · intro same
      by_contra negative
      obtain ⟨failure, failed⟩ := unbase_of_neg reader low bounded (not_le.mp negative)
      rw [failed] at same
      cases same
    · intro nonneg
      have back := unbase_of_nonneg reader low bounded n.toNat
      rwa [toNat_of_nonneg nonneg] at back
  · rw [← writtenInt_text, numeric_written reader _ (writtenInt_readable n), writtenInt_number]
  · exact ⟨_, numeric_fraction reader n positive.ne', Rational.toRat_ofRat _⟩
  · constructor
    · rintro ⟨r, parsed, _⟩
      by_contra unreadable
      obtain ⟨failure, failed⟩ := numeric_written_fails reader written unreadable
      rw [failed] at parsed
      cases parsed
    · intro readable
      exact ⟨_, numeric_written reader written readable, written.number_exact⟩

/-- A reader for texts without floating point numbers. -/
def exactReader : Reader .mp64Bit Unit where
  nan := ()
  infinity := fun _ => ()
  scientific := fun _ _ _ _ => ()
  divide := fun _ _ => ()
  ofNum := fun _ => ()
  multiplier := exactMultiplier .mp64Bit
  uIsspace := fun _ => false

theorem text_reads_back_hex : (∃ text, intBase 255 16 = some text ∧
      exactReader.unbase 16 text = .ok (.real (.int 255))) ∧
      exactReader.numeric (intStr (-12)) = .ok (.real (.int (-12))) ∧
      ∃ r : Rational, exactReader.numeric (intStr (-3) ++ codes "/" ++ intStr 4) =
        .ok (.real (.rat r)) ∧ r.toRat = (-3 : Int) / (4 : Int) := by
  obtain ⟨bases, ints, fractions, _⟩ := text_reads_back exactReader
  obtain ⟨text, written, back⟩ := bases 255 16 (by decide) (by decide)
  exact ⟨⟨text, written, back.mpr (by decide)⟩, ints (-12), fractions (-3) 4 (by decide)⟩

/-- `unbase(16, '-FF')`, which is what `(-255).base(16)` gives, and `'0x.8'` fail. -/
theorem minus255_not_read_back : intBase (-255) 16 = some (codes "-FF") ∧
      ¬ exactReader.unbase 16 (codes "-FF") = .ok (.real (.int (-255))) ∧
      ¬ ∃ r, exactReader.numeric (codes "0x.8") = .ok r := by
  have negative : exactReader.unbase 16 (codes "-FF") =
      .error (.strNumeric "base-16 number must begin with valid digits or '.'" 4) := rfl
  have fraction : exactReader.numeric (codes "0x.8") =
      .error (.strNumeric "base-16 number must begin with valid digits or '.'" 2) := rfl
  refine ⟨?_, ?_, ?_⟩
  · simp [intBase, baseI, toradix]
    decide
  · rw [negative]
    exact nofun
  · rw [fraction]
    rintro ⟨r, same⟩
    cases same

end RakudoStar.Numeric
