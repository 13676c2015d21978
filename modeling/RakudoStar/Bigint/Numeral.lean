import RakudoStar.Bigint.Shifts
import RakudoStar.Foundation.Rounding

/-!
# Reading numbers in a radix

`nqp_bigint_radix` and `nqp_radix` run one loop, with big integers or floating point numbers as
accumulators.
-/

namespace RakudoStar.Bigint

open RakudoStar.Except Rounding List

/-- What the operators throw. -/
inductive RadixError where
  /-- `EXCEPTION_INVALID_OPERATION`. -/
  | invalidOperation (message : String)
  /-- `EXCEPTION_ORD_OUT_OF_STRING`. -/
  | ordOutOfString (message : String)
  | undefined (fault : Fault)
  deriving DecidableEq, Repr

/-- `STRING_ord`: negative indices count from the end. -/
def stringOrd (str : List Nat) (idx : Int) : Except RadixError Nat :=
  let len := str.length
  let idx := if idx < 0 then idx + len else idx
  if 0 ≤ idx ∧ idx < len then .ok (str.getD idx.toNat 0)
  else if len = 0 then .error (.ordOutOfString "Cannot get character of empty string")
  else if 0 ≤ idx then .error (.ordOutOfString "Cannot get character past end of string")
  else .error (.ordOutOfString "Cannot get character before beginning of string")

structure Accumulator (α : Type) where
  /-- `zvalue * radix + ch`. -/
  push : α → Nat → α
  /-- `zbase * radix`. -/
  scale : α → α
  /-- The copy of an accumulator into a result. -/
  store : α → α → α

structure Loop (α : Type) where
  zvalue : α
  zbase : α
  value : α
  base : α
  zpos : Int
  pos : Int
  ch : Nat

/-- The value of a character as a digit. -/
def digitOf (ch : Nat) : Option Nat :=
  if '0'.toNat ≤ ch ∧ ch ≤ '9'.toNat then some (ch - '0'.toNat)
  else if 'a'.toNat ≤ ch ∧ ch ≤ 'z'.toNat then some (ch - 'a'.toNat + 10)
  else if 'A'.toNat ≤ ch ∧ ch ≤ 'Z'.toNat then some (ch - 'A'.toNat + 10)
  else none

section

variable {α : Type} (acc : Accumulator α) (radix : Nat) (str : List Nat) (flags : Nat)

def Loop.pushDigit (loop : Loop α) (ch : Nat) : Loop α :=
  let zvalue := acc.push loop.zvalue ch
  let zbase := acc.scale loop.zbase
  let committed := ch ≠ 0 ∨ flags &&& 0x04 = 0
  { zvalue := zvalue
    zbase := zbase
    value := if committed then acc.store zvalue loop.value else loop.value
    base := if committed then acc.store zbase loop.base else loop.base
    zpos := loop.zpos + 1
    pos := loop.zpos + 1
    ch := ch }

/-- The loop, with at most as many rounds as there are characters left. -/
def radixLoop : Nat → Loop α → Except RadixError (Loop α)
  | 0, loop => .ok loop
  | rounds + 1, loop =>
    if loop.zpos < str.length then
      match digitOf loop.ch with
      | none => .ok loop
      | some ch =>
        if radix ≤ ch then .ok loop
        else
          let loop := loop.pushDigit acc flags ch
          if (str.length : Int) ≤ loop.zpos then .ok loop
          else do
            let ch ← stringOrd str loop.zpos
            if ch ≠ '_'.toNat then radixLoop rounds { loop with ch := ch }
            else
              let zpos := loop.zpos + 1
              if (str.length : Int) ≤ zpos then .ok { loop with zpos := zpos, ch := ch }
              else do
                let ch ← stringOrd str zpos
                radixLoop rounds { loop with zpos := zpos, ch := ch }
    else .ok loop

/-- The character at a position, or zero behind the end. -/
def charAt (zpos : Int) : Except RadixError Nat :=
  if zpos < str.length then stringOrd str zpos else .ok 0

/-- What the two operators share: a sign where the flags ask for it, and the loop. -/
def radixScan (zero one : α) (zpos : Int) : Except RadixError (Loop α × Bool) := do
  let ch ← charAt str zpos
  let signed := flags &&& 0x02 ≠ 0 ∧ (ch = '+'.toNat ∨ ch = '-'.toNat)
  let neg := decide (signed ∧ ch = '-'.toNat)
  let zpos := if signed then zpos + 1 else zpos
  let ch ← if signed then charAt str zpos else .ok ch
  let loop ← radixLoop acc radix str flags (str.length - zpos).toNat
    { zvalue := zero
      zbase := one
      value := zero
      base := one
      zpos := zpos
      pos := -1
      ch := ch }
  .ok (loop, neg)

end

/-- The exception for a radix above 36. -/
def radixTooLarge (radix : Nat) : RadixError :=
  .invalidOperation s!"Cannot convert radix of {radix} (max 36)"

/-- What `nqp_bigint_radix` returns; the position is boxed into an object of the type. -/
structure BigintRadix where
  value : MpInt
  base : MpInt
  pos : Int
  deriving DecidableEq, Repr

/-- `mp_mul_d`, `mp_add_d` and `mp_copy` on the accumulators. -/
def bigintAccumulator (fmt : DigitFormat) (radix : Nat) : Accumulator MpInt where
  push := fun zvalue ch =>
    let zvalue := mpMulD fmt zvalue radix zvalue
    mpAddD fmt zvalue ch zvalue
  scale := fun zbase => mpMulD fmt zbase radix zbase
  store := fun a b => mpCopy a b

def nqpBigintRadix (fmt : DigitFormat) (radix : Nat) (str : List Nat) (zpos : Int)
    (flags : Nat) : Except RadixError BigintRadix :=
  if 36 < radix then .error (radixTooLarge radix)
  else do
    let one ← (mpSetInt fmt mpInit 1).mapError .undefined
    let (loop, neg) ←
      radixScan (bigintAccumulator fmt radix) radix str flags mpInit one zpos
    let value := if neg = true ∨ flags &&& 0x01 ≠ 0 then mpNeg loop.value else loop.value
    .ok { value := value, base := loop.base, pos := loop.pos }

/-- A floating point number, not negative nor from a division: a natural number or infinity. -/
abbrev Magnitude :=
  Option Nat

def dblMaxExp : Nat :=
  1024

/-- The numbers from here on are infinite for a `double`. -/
def doubleLimit : Nat :=
  2 ^ dblMaxExp

/-- The nearest `double`. -/
def Magnitude.ofNat (n : Nat) : Magnitude :=
  let rounded := round 53 n
  if rounded < doubleLimit then some rounded else none

/-- A `FLOATVAL` with its sign bit. -/
structure Floatval where
  negative : Bool
  magnitude : Magnitude
  deriving DecidableEq, Repr

/-- The integer that a finite number is. -/
def Floatval.toInt? (number : Floatval) : Option Int :=
  number.magnitude.map fun n => if number.negative then -(n : Int) else n

/-- The conversion of an integer. -/
def Floatval.ofInt (value : Int) : Floatval where
  negative := decide (value < 0)
  magnitude := .ofNat value.natAbs

/-- The three numbers that `nqp_radix` returns. -/
structure FloatRadix where
  value : Floatval
  base : Floatval
  pos : Floatval
  deriving DecidableEq, Repr

/-- Products and sums are rounded one after the other. -/
def floatAccumulator (radix : Nat) : Accumulator Magnitude where
  push := fun zvalue ch =>
    (zvalue.bind fun n => Magnitude.ofNat (n * radix)).bind fun product =>
      Magnitude.ofNat (product + ch)
  scale := fun zbase => zbase.bind fun n => Magnitude.ofNat (n * radix)
  store := fun a _ => a

def nqpRadix (radix : Nat) (str : List Nat) (zpos : Int) (flags : Nat) :
    Except RadixError FloatRadix :=
  if 36 < radix then .error (radixTooLarge radix)
  else do
    let (loop, neg) ←
      radixScan (floatAccumulator radix) radix str flags (some 0) (some 1) zpos
    .ok
      { value := ⟨decide (neg = true ∨ flags &&& 0x01 ≠ 0), loop.value⟩
        base := ⟨false, loop.base⟩
        pos := .ofInt loop.pos }

/-- The characters from an offset on; from a negative one, the string starts over. -/
def textFrom (str : List Nat) (zpos : Int) : List Nat :=
  if 0 ≤ zpos then str.drop zpos.toNat
  else str.drop (zpos + str.length).toNat ++ str

variable {str : List Nat} {zpos : Int}

theorem textFrom_of_le (beyond : (str.length : Int) ≤ zpos) : textFrom str zpos = [] := by
  rw [textFrom, if_pos (by omega), drop_eq_nil_of_le (by omega)]

theorem textFrom_eq_cons (first : -(str.length : Int) ≤ zpos) (inside : zpos < str.length) :
    ∃ ch, stringOrd str zpos = .ok ch ∧ textFrom str zpos = ch :: textFrom str (zpos + 1) := by
  unfold stringOrd
  dsimp only
  rcases Int.lt_or_le zpos 0 with negative | nonnegative
  · have low : (zpos + str.length).toNat < str.length := by omega
    refine ⟨str[(zpos + str.length).toNat], ?_, ?_⟩
    · rw [if_pos negative, if_pos (by omega), getD_eq_getElem?_getD,
        getElem?_eq_getElem low, Option.getD_some]
    rw [textFrom, if_neg (by omega), drop_eq_getElem_cons low, cons_append, textFrom]
    by_cases last : zpos + 1 = 0
    · have all : (zpos + str.length).toNat + 1 = str.length := by omega
      rw [if_pos (by omega), last, all, drop_length]
      rfl
    · have next : (zpos + 1 + str.length).toNat = (zpos + str.length).toNat + 1 := by omega
      rw [if_neg (by omega), next]
  have low : zpos.toNat < str.length := by omega
  refine ⟨str[zpos.toNat], ?_, ?_⟩
  · rw [if_neg nonnegative.not_gt, if_pos (by omega),
      getD_eq_getElem?_getD, getElem?_eq_getElem low, Option.getD_some]
  have next : (zpos + 1).toNat = zpos.toNat + 1 := by omega
  rw [textFrom, if_pos nonnegative, drop_eq_getElem_cons low, textFrom, if_pos (by omega), next]

theorem length_textFrom (first : -(str.length : Int) ≤ zpos) :
    (textFrom str zpos).length = (str.length - zpos).toNat := by
  unfold textFrom
  split
  · rw [length_drop]
    omega
  · rw [length_append, length_drop]
    omega

theorem stringOrd_of_lt (before : zpos < -(str.length : Int)) :
    ∃ message, stringOrd str zpos = .error (.ordOutOfString message) := by
  have negative : zpos < 0 := by omega
  unfold stringOrd
  dsimp only
  rw [if_pos negative, if_neg (by omega)]
  split
  · exact ⟨_, rfl⟩
  · rw [if_neg (by omega)]
    exact ⟨_, rfl⟩

end RakudoStar.Bigint

namespace RakudoStar.Bigint

variable (radix : Nat)

/-- A character that is a digit below the radix. -/
def IsDigit (ch digit : Nat) : Prop :=
  digitOf ch = some digit ∧ digit < radix

/-- `digit (_? digit)*`, with the values of the digits. -/
inductive DigitRun : List Nat → List Nat → Prop
  | last {ch digit : Nat} : IsDigit radix ch digit → DigitRun [ch] [digit]
  | next {ch digit : Nat} {text digits : List Nat} : IsDigit radix ch digit →
      DigitRun text digits → DigitRun (ch :: text) (digit :: digits)
  | underscore {ch digit : Nat} {text digits : List Nat} : IsDigit radix ch digit →
      DigitRun text digits → DigitRun (ch :: '_'.toNat :: text) (digit :: digits)

/-- A run of digits, behind a sign where signs are allowed. -/
inductive Numeral (signed : Bool) : Bool → List Nat → List Nat → Prop
  | bare {text digits : List Nat} : DigitRun radix text digits → Numeral signed false text digits
  | plus {text digits : List Nat} : signed = true → DigitRun radix text digits →
      Numeral signed false ('+'.toNat :: text) digits
  | minus {text digits : List Nat} : signed = true → DigitRun radix text digits →
      Numeral signed true ('-'.toNat :: text) digits

structure LongestNumeral (signed : Bool) (text : List Nat) (negative : Bool)
    (consumed digits : List Nat) : Prop where
  isPrefix : consumed <+: text
  numeral : Numeral radix signed negative consumed digits
  longest : ∀ {other otherDigits : List Nat} {sign : Bool}, other <+: text →
    Numeral radix signed sign other otherDigits → other.length ≤ consumed.length

def NoNumeral (signed : Bool) (text : List Nat) : Prop :=
  ∀ {other otherDigits : List Nat} {sign : Bool}, other <+: text →
    ¬ Numeral radix signed sign other otherDigits

/-- The digits of the longest run at the beginning of a text, and its length. -/
def scanDigits : List Nat → List Nat × Nat
  | [] => ([], 0)
  | [ch] =>
    match digitOf ch with
    | none => ([], 0)
    | some digit => if radix ≤ digit then ([], 0) else ([digit], 1)
  | ch :: next :: text =>
    match digitOf ch with
    | none => ([], 0)
    | some digit =>
      if radix ≤ digit then ([], 0)
      else if next ≠ '_'.toNat then
        let rest := scanDigits (next :: text)
        (digit :: rest.1, rest.2 + 1)
      else
        let rest := scanDigits text
        (digit :: rest.1, if rest.1 = [] then 1 else rest.2 + 2)

variable {radix} {ch digit : Nat} {text digits other : List Nat} {signed : Bool}

theorem digitOf_underscore : digitOf '_'.toNat = none := by
  decide

theorem digitOf_plus : digitOf '+'.toNat = none := by
  decide

theorem digitOf_minus : digitOf '-'.toNat = none := by
  decide

section

variable (run : DigitRun radix text digits)

include run

theorem DigitRun.digits_ne_nil : digits ≠ [] := by
  cases run <;> exact List.cons_ne_nil _ _

theorem DigitRun.digits_lt : ∀ digit ∈ digits, digit < radix := by
  induction run with
  | last isDigit =>
    intro digit member
    rw [List.mem_singleton.mp member]
    exact isDigit.2
  | next isDigit _ ih | underscore isDigit _ ih =>
    intro digit member
    rcases List.mem_cons.mp member with rfl | later
    · exact isDigit.2
    · exact ih digit later

theorem DigitRun.exists_cons : ∃ ch digit rest, text = ch :: rest ∧ IsDigit radix ch digit := by
  cases run with
  | last isDigit | next isDigit _ | underscore isDigit _ => exact ⟨_, _, _, rfl, isDigit⟩

end

theorem scanDigits_cons_of_not_isDigit (none : ∀ digit, ¬ IsDigit radix ch digit) :
    scanDigits radix (ch :: text) = ([], 0) := by
  cases text with
  | nil | cons next text =>
    rw [scanDigits]
    cases value : digitOf ch with
    | none => rfl
    | some digit => exact if_pos (not_lt.mp fun below => none digit ⟨value, below⟩)

theorem scanDigits_singleton (isDigit : IsDigit radix ch digit) :
    scanDigits radix [ch] = ([digit], 1) := by
  rw [scanDigits, isDigit.1]
  exact if_neg (not_le.mpr isDigit.2)

theorem scanDigits_next (isDigit : IsDigit radix ch digit) {next : Nat}
    (other : next ≠ '_'.toNat) : scanDigits radix (ch :: next :: text) =
      (digit :: (scanDigits radix (next :: text)).1, (scanDigits radix (next :: text)).2 + 1) := by
  rw [scanDigits, isDigit.1]
  dsimp only
  rw [if_neg (not_le.mpr isDigit.2), if_pos other]

theorem scanDigits_underscore (isDigit : IsDigit radix ch digit) :
    scanDigits radix (ch :: '_'.toNat :: text) = (digit :: (scanDigits radix text).1,
        if (scanDigits radix text).1 = [] then 1 else (scanDigits radix text).2 + 2) := by
  rw [scanDigits, isDigit.1]
  dsimp only
  rw [if_neg (not_le.mpr isDigit.2), if_neg (not_not.mpr rfl)]

/-- Induction along the scan, by what the text begins with. -/
theorem scan_induction (radix : Nat) {motive : List Nat → Prop} (nil : motive [])
    (stop : ∀ {ch text}, (∀ digit, ¬ IsDigit radix ch digit) → motive (ch :: text))
    (single : ∀ {ch digit}, IsDigit radix ch digit → motive [ch])
    (next : ∀ {ch digit next text}, IsDigit radix ch digit → next ≠ '_'.toNat →
      motive (next :: text) → motive (ch :: next :: text))
    (underscore : ∀ {ch digit text}, IsDigit radix ch digit → motive text →
      motive (ch :: '_'.toNat :: text)) : ∀ text : List Nat, motive text
  | [] => nil
  | [ch] => by
    by_cases isDigit : ∃ digit, IsDigit radix ch digit
    · exact single isDigit.choose_spec
    · exact stop (not_exists.mp isDigit)
  | ch :: other :: text => by
    by_cases isDigit : ∃ digit, IsDigit radix ch digit
    · by_cases isUnderscore : other = '_'.toNat
      · rw [isUnderscore]
        exact underscore isDigit.choose_spec
          (scan_induction radix nil stop single next underscore text)
      · exact next isDigit.choose_spec isUnderscore
          (scan_induction radix nil stop single next underscore (other :: text))
    · exact stop (not_exists.mp isDigit)

theorem scanDigits_snd_eq_zero (none : (scanDigits radix text).1 = []) :
    (scanDigits radix text).2 = 0 := by
  induction text using scan_induction radix with
  | nil => rfl
  | stop noDigit => rw [scanDigits_cons_of_not_isDigit noDigit]
  | single isDigit =>
    rw [scanDigits_singleton isDigit] at none
    cases none
  | next isDigit other _ =>
    rw [scanDigits_next isDigit other] at none
    cases none
  | underscore isDigit _ =>
    rw [scanDigits_underscore isDigit] at none
    cases none

theorem scanDigits_snd_le (text : List Nat) : (scanDigits radix text).2 ≤ text.length := by
  induction text using scan_induction radix with
  | nil => exact le_refl 0
  | stop noDigit =>
    rw [scanDigits_cons_of_not_isDigit noDigit]
    exact Nat.zero_le _
  | single isDigit =>
    rw [scanDigits_singleton isDigit]
    exact le_refl 1
  | next isDigit other ih =>
    rw [scanDigits_next isDigit other]
    exact Nat.succ_le_succ ih
  | underscore isDigit ih =>
    rw [scanDigits_underscore isDigit]
    split
    · exact Nat.le_add_left 1 _
    · exact Nat.add_le_add_right ih 2

theorem digitRun_take_scanDigits (some : (scanDigits radix text).1 ≠ []) :
    DigitRun radix (text.take (scanDigits radix text).2) (scanDigits radix text).1 := by
  induction text using scan_induction radix with
  | nil => exact absurd rfl some
  | stop noDigit =>
    rw [scanDigits_cons_of_not_isDigit noDigit] at some
    exact absurd rfl some
  | single isDigit =>
    rw [scanDigits_singleton isDigit]
    exact .last isDigit
  | @next ch digit next text isDigit other ih =>
    rw [scanDigits_next isDigit other]
    by_cases none : (scanDigits radix (next :: text)).1 = []
    · rw [none, scanDigits_snd_eq_zero none]
      exact .last isDigit
    · exact .next isDigit (ih none)
  | @underscore ch digit text isDigit ih =>
    rw [scanDigits_underscore isDigit]
    by_cases none : (scanDigits radix text).1 = []
    · rw [if_pos none, none]
      exact .last isDigit
    · rw [if_neg none]
      exact .underscore isDigit (ih none)

theorem IsDigit.ne_underscore (isDigit : IsDigit radix ch digit) : ch ≠ '_'.toNat := by
  rintro rfl
  cases digitOf_underscore.symm.trans isDigit.1

theorem length_le_scanDigits (run : DigitRun radix other digits) (isPrefix : other <+: text) :
    other.length ≤ (scanDigits radix text).2 ∧ (scanDigits radix text).1 ≠ [] := by
  induction run generalizing text with
  | @last ch digit isDigit =>
    obtain ⟨rest, rfl⟩ := isPrefix
    rw [List.singleton_append]
    cases rest with
    | nil =>
      rw [scanDigits_singleton isDigit]
      exact ⟨le_refl 1, List.cons_ne_nil _ _⟩
    | cons next rest =>
      by_cases isUnderscore : next = '_'.toNat
      · rw [isUnderscore, scanDigits_underscore isDigit]
        refine ⟨?_, List.cons_ne_nil _ _⟩
        split
        · exact le_refl 1
        · exact Nat.le_add_left 1 _
      · rw [scanDigits_next isDigit isUnderscore]
        exact ⟨Nat.le_add_left 1 _, List.cons_ne_nil _ _⟩
  | @next ch digit tail digits isDigit run ih =>
    obtain ⟨rest, rfl⟩ := isPrefix
    obtain ⟨first, firstDigit, behind, tailEq, firstIsDigit⟩ := run.exists_cons
    have later := ih (List.prefix_append tail rest)
    rw [tailEq] at later ⊢
    rw [List.cons_append, List.cons_append, scanDigits_next isDigit firstIsDigit.ne_underscore]
    exact ⟨Nat.succ_le_succ later.1, List.cons_ne_nil _ _⟩
  | @underscore ch digit tail digits isDigit run ih =>
    obtain ⟨rest, rfl⟩ := isPrefix
    have later := ih (List.prefix_append tail rest)
    rw [List.cons_append, List.cons_append, scanDigits_underscore isDigit, if_neg later.2]
    exact ⟨Nat.add_le_add_right later.1 2, List.cons_ne_nil _ _⟩

/-- Whether a text begins with a sign that is read. -/
def signOf (signed : Bool) : List Nat → Option Bool
  | [] => none
  | ch :: _ =>
    if signed = true ∧ (ch = '+'.toNat ∨ ch = '-'.toNat) then some (decide (ch = '-'.toNat))
    else none

def behindSign (signed : Bool) (text : List Nat) : List Nat :=
  if (signOf signed text).isSome then text.tail else text

theorem not_isDigit_of_sign (sign : ch = '+'.toNat ∨ ch = '-'.toNat) :
    ¬ IsDigit radix ch digit := by
  rintro ⟨value, _⟩
  rcases sign with rfl | rfl
  · cases digitOf_plus.symm.trans value
  · cases digitOf_minus.symm.trans value

theorem Numeral.run_behindSign {negative : Bool}
    (numeral : Numeral radix signed negative other digits) (isPrefix : other <+: text) :
    ∃ run, DigitRun radix run digits ∧ run <+: behindSign signed text ∧
      other.length = run.length + if (signOf signed text).isSome then 1 else 0 := by
  cases numeral with
  | bare run =>
    obtain ⟨ch, digit, rest, otherEq, isDigit⟩ := run.exists_cons
    obtain ⟨behind, textEq⟩ := isPrefix
    have none : signOf signed text = .none := by
      rw [← textEq, otherEq, List.cons_append, signOf, if_neg]
      rintro ⟨_, sign⟩
      exact not_isDigit_of_sign sign isDigit
    refine ⟨other, run, ?_, ?_⟩
    · rw [behindSign, none]
      exact ⟨behind, textEq⟩
    · rw [none]
      rfl
  | @plus tail _ allowed run =>
    obtain ⟨behind, rfl⟩ := isPrefix
    have some : signOf signed ('+'.toNat :: tail ++ behind) = .some false := by
      rw [List.cons_append, signOf, if_pos ⟨allowed, .inl rfl⟩]
      rfl
    refine ⟨tail, run, ?_, ?_⟩
    · rw [behindSign, some]
      exact List.prefix_append tail behind
    · rw [some]
      rfl
  | @minus tail _ allowed run =>
    obtain ⟨behind, rfl⟩ := isPrefix
    have some : signOf signed ('-'.toNat :: tail ++ behind) = .some true := by
      rw [List.cons_append, signOf, if_pos ⟨allowed, .inr rfl⟩]
      rfl
    refine ⟨tail, run, ?_, ?_⟩
    · rw [behindSign, some]
      exact List.prefix_append tail behind
    · rw [some]
      rfl

theorem numeral_of_run (text : List Nat) (signed : Bool) {run : List Nat}
    (isRun : DigitRun radix run digits) :
    ∃ consumed, Numeral radix signed ((signOf signed text).getD false) consumed digits ∧
      (run <+: behindSign signed text → consumed <+: text) ∧
      consumed.length = run.length + if (signOf signed text).isSome then 1 else 0 := by
  cases text with
  | nil => exact ⟨run, .bare isRun, id, rfl⟩
  | cons ch text =>
    by_cases sign : signed = true ∧ (ch = '+'.toNat ∨ ch = '-'.toNat)
    · have some : signOf signed (ch :: text) = .some (decide (ch = '-'.toNat)) := if_pos sign
      refine ⟨ch :: run, ?_, ?_, ?_⟩
      · rw [some, Option.getD_some]
        rcases sign.2 with rfl | rfl
        · exact .plus sign.1 isRun
        · exact .minus sign.1 isRun
      · intro isPrefix
        rw [behindSign, some] at isPrefix
        exact (List.prefix_cons_inj ch).mpr isPrefix
      · rw [some]
        rfl
    have none : signOf signed (ch :: text) = .none := if_neg sign
    refine ⟨run, ?_, ?_, ?_⟩
    · rw [none]
      exact .bare isRun
    · intro isPrefix
      rw [behindSign, none] at isPrefix
      exact isPrefix
    · rw [none]
      rfl

theorem longestNumeral_of_scanDigits (some : (scanDigits radix (behindSign signed text)).1 ≠ []) :
    ∃ consumed, LongestNumeral radix signed text ((signOf signed text).getD false) consumed
        (scanDigits radix (behindSign signed text)).1 ∧
      consumed.length = (scanDigits radix (behindSign signed text)).2 +
        if (signOf signed text).isSome then 1 else 0 := by
  have run := digitRun_take_scanDigits some
  have isPrefix := List.take_prefix (scanDigits radix (behindSign signed text)).2
    (behindSign signed text)
  obtain ⟨consumed, numeral, isPrefix', length⟩ := numeral_of_run text signed run
  have consumedPrefix := isPrefix' isPrefix
  have full : ((behindSign signed text).take (scanDigits radix (behindSign signed text)).2).length =
      (scanDigits radix (behindSign signed text)).2 := by
    rw [List.length_take]
    exact min_eq_left (scanDigits_snd_le _)
  refine ⟨consumed, ⟨consumedPrefix, numeral, ?_⟩, by rw [length, full]⟩
  intro other otherDigits sign otherPrefix otherNumeral
  obtain ⟨otherRun, isRun, runPrefix, otherLength⟩ := otherNumeral.run_behindSign otherPrefix
  have bound := (length_le_scanDigits isRun runPrefix).1
  omega

theorem noNumeral_of_scanDigits
    (none : (scanDigits radix (behindSign signed text)).1 = []) : NoNumeral radix signed text := by
  intro other otherDigits sign otherPrefix otherNumeral
  obtain ⟨otherRun, isRun, runPrefix, _⟩ := otherNumeral.run_behindSign otherPrefix
  exact (length_le_scanDigits isRun runPrefix).2 none

end RakudoStar.Bigint
