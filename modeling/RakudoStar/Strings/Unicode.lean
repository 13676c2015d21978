import Mathlib.Data.Nat.Bits
import Mathlib.Tactic.IntervalCases
import RakudoStar.Foundation.WordCode

/-!
# Code points, surrogates, and start bytes

The macros of `unicode.h`. `UINTVAL`s are natural numbers; a mask that the source complements
(`c & ~MASK`) is a shift down and up again. Beside each macro stands its arithmetic form.
-/

namespace RakudoStar.Strings

open Nat Bool

inductive ExceptionType where
  | malformedUtf8
  | malformedUtf16
  | invalidCharacter
  | invalidStringRepresentation
  | lossyConversion
  | invalidEncoding
  | substrOutOfString
  | unexpectedNull
  deriving DecidableEq, Repr

/-- An exception, or a read outside the string, which no code path reports. -/
inductive Fault where
  | thrown (type : ExceptionType) (message : String)
  | outside (position : Nat)
  deriving DecidableEq, Repr

/-- Reading through a pointer into a string. -/
def read {U : Type} (units : List U) (position : Nat) : Except Fault U :=
  match units[position]? with
  | some unit => .ok unit
  | none => .error (.outside position)

variable {position : Nat} {U : Type} {unit : U} {units : List U}

theorem read_of_lt (inside : position < units.length) :
    read units position = .ok units[position] := by
  rw [read, List.getElem?_eq_getElem inside]

theorem drop_of_read (found : read units position = .ok unit) :
    units.drop position = unit :: units.drop (position + 1) := by
  unfold read at found
  split at found
  · rename_i other present
    cases found
    obtain ⟨inside, rfl⟩ := List.getElem?_eq_some_iff.mp present
    exact List.drop_eq_getElem_cons inside
  · cases found

theorem read_of_drop {rest : List U}
    (found : units.drop position = unit :: rest) : read units position = .ok unit := by
  have head : (units.drop position)[0]? = some unit := by rw [found]; rfl
  rw [List.getElem?_drop, add_zero] at head
  rw [read, head]

def isSurrogate (c : Nat) : Bool := 0xD800 ≤ c && c ≤ 0xDFFF

def isHighSurrogate (c : Nat) : Bool := (c >>> 10) <<< 10 == 0xD800

def isLowSurrogate (c : Nat) : Bool := (c >>> 10) <<< 10 == 0xDC00

def isInvariant (c : Nat) : Bool := c < 0x80

def isNonCharacter (c : Nat) : Bool := c &&& 0xFFFE == 0xFFFE || (0xFDD0 ≤ c && c ≤ 0xFDEF)

def isInvalid (c : Nat) : Bool :=
  0xD800 ≤ c &&
    (if c ≤ 0xFDEF then c ≤ 0xDFFF || 0xFDD0 ≤ c
    else c &&& 0xFFFE == 0xFFFE || 0x10FFFF < c)

def highSurrogate (c : Nat) : Nat := (c >>> 10) + (0xD800 - (0x10000 >>> 10))

def lowSurrogate (c : Nat) : Nat := (c &&& 0x3FF) ||| 0xDC00

def decodeSurrogate (high low : Nat) : Nat :=
  (high <<< 10) + low - ((0xD800 <<< 10) + 0xDC00 - 0x10000)

def uniSkip (uv : Nat) : Nat :=
  if uv < 0x80 then 1 else if uv < 0x800 then 2 else if uv < 0x10000 then 3 else 4

def utf16Skip (c : Nat) : Nat := if isHighSurrogate c then 2 else 1

def isStart (c : Nat) : Bool := 0xC2 ≤ c && c ≤ 0xF4

def isContinuation (c : Nat) : Bool := c &&& 0xC0 == 0x80

def startMark (len : Nat) : Nat := (0xFF00 >>> len) &&& 0xFF

def startMask (len : Nat) : Nat := 0x7F >>> len

def accumulate (old new : Nat) : Nat := (old <<< 6) ||| (new &&& 0x3F)

def isOverlong (c1 c2 : Nat) : Bool := (c1 == 0xE0 && c2 < 0xA0) || (c1 == 0xF0 && c2 < 0x90)

def utf8SkipTable : List Nat :=
  List.replicate 192 1 ++ List.replicate 32 2 ++ List.replicate 16 3 ++
    List.replicate 8 4 ++ List.replicate 4 5 ++ List.replicate 4 6

/-- `UTF8SKIP`. The table has an entry for each byte. -/
def utf8Skip (byte : UInt8) : Nat := utf8SkipTable.getD byte.toNat 0

/-- The code points a string may hold: no surrogate, no non-character, and none above
U+10FFFF. -/
def IsCharacter (c : Nat) : Prop :=
  ¬(0xD800 ≤ c ∧ c ≤ 0xDFFF) ∧ ¬(0xFDD0 ≤ c ∧ c ≤ 0xFDEF) ∧ c % 0x10000 < 0xFFFE ∧ c ≤ 0x10FFFF

instance (c : Nat) : Decidable (IsCharacter c) := inferInstanceAs (Decidable (_ ∧ _))

section
variable (c : Nat)
include c

theorem and_fffe : c &&& 0xFFFE = c / 2 % 0x8000 * 2 := by
  have masked : c &&& 0xFFFE = (c >>> 1 &&& 0x7FFF) <<< 1 := by
    apply eq_of_testBit_eq
    intro i
    have mask : (0xFFFE : Nat) = 0x7FFF <<< 1 := rfl
    rw [mask, testBit_and, testBit_shiftLeft, testBit_shiftLeft, testBit_and, testBit_shiftRight]
    cases i with
    | zero => simp
    | succ i => simp [add_comm]
  rw [masked, shiftLeft_eq, shiftRight_eq_div_pow]
  exact congrArg (· * 2) (and_two_pow_sub_one_eq_mod (c / 2 ^ 1) 15)

theorem and_fffe_eq_iff : c &&& 0xFFFE = 0xFFFE ↔ 0xFFFE ≤ c % 0x10000 := by
  rw [and_fffe]
  omega

theorem isInvalid_eq_false_iff : isInvalid c = false ↔ IsCharacter c := by
  have mask := and_fffe_eq_iff c
  unfold isInvalid IsCharacter
  simp only [and_eq_false_iff, decide_eq_false_iff_not]
  split
  · simp only [or_eq_false_iff, decide_eq_false_iff_not]
    omega
  · simp only [or_eq_false_iff, decide_eq_false_iff_not, beq_eq_false_iff_ne, ne_eq, mask]
    omega

theorem isNonCharacter_eq_false_iff :
    isNonCharacter c = false ↔ c % 0x10000 < 0xFFFE ∧ ¬(0xFDD0 ≤ c ∧ c ≤ 0xFDEF) := by
  simp only [isNonCharacter, or_eq_false_iff, and_eq_false_iff,
    decide_eq_false_iff_not, beq_eq_false_iff_ne, ne_eq, and_fffe_eq_iff]
  omega

theorem isHighSurrogate_iff : isHighSurrogate c = true ↔ 0xD800 ≤ c ∧ c < 0xDC00 := by
  rw [isHighSurrogate, beq_iff_eq, shiftLeft_eq, shiftRight_eq_div_pow]
  omega

theorem isLowSurrogate_iff : isLowSurrogate c = true ↔ 0xDC00 ≤ c ∧ c < 0xE000 := by
  rw [isLowSurrogate, beq_iff_eq, shiftLeft_eq, shiftRight_eq_div_pow]
  omega

theorem isSurrogate_iff : isSurrogate c = true ↔ 0xD800 ≤ c ∧ c ≤ 0xDFFF := by
  simp only [isSurrogate, and_eq_true, decide_eq_true_eq]

theorem isStart_iff : isStart c = true ↔ 0xC2 ≤ c ∧ c ≤ 0xF4 := by
  simp only [isStart, and_eq_true, decide_eq_true_eq]

theorem highSurrogate_eq : highSurrogate c = c / 0x400 + 0xD7C0 := by
  rw [highSurrogate, shiftRight_eq_div_pow]
  rfl

theorem lowSurrogate_eq : lowSurrogate c = c % 0x400 + 0xDC00 := by
  have mark : (0xDC00 : Nat) = 0x37 <<< 10 := rfl
  have low : c % 0x400 < 2 ^ 10 := mod_lt _ (by decide)
  have masked : c &&& 0x3FF = c % 0x400 := and_two_pow_sub_one_eq_mod c 10
  rw [lowSurrogate, masked, Nat.or_comm, mark, ← shiftLeft_add_eq_or_of_lt low, Nat.add_comm]

end

theorem decodeSurrogate_eq (high low : Nat) :
    decodeSurrogate high low = high * 0x400 + low - 0x35FDC00 := by
  have base : (0xD800 <<< 10) + 0xDC00 - 0x10000 = 0x35FDC00 := by decide
  have shifted : high <<< 10 = high * 0x400 := shiftLeft_eq high 10
  unfold decodeSurrogate
  simp only [base, shifted]

theorem accumulate_eq (old new : Nat) : accumulate old new = old * 64 + new % 64 := by
  have low : new % 64 < 2 ^ 6 := mod_lt _ (by decide)
  have masked : new &&& 0x3F = new % 64 := and_two_pow_sub_one_eq_mod new 6
  rw [accumulate, masked, ← shiftLeft_add_eq_or_of_lt low, shiftLeft_eq]

theorem and_continuationMask (c : Nat) : c &&& 0x3F = c % 64 :=
  and_two_pow_sub_one_eq_mod c 6

theorem continuationByte_eq (c : Nat) : (c &&& 0x3F) ||| 0x80 = c % 64 + 0x80 := by
  have low : c % 64 < 2 ^ 6 := mod_lt _ (by decide)
  have mark : (0x80 : Nat) = 2 <<< 6 := rfl
  rw [and_continuationMask, Nat.or_comm, mark, ← shiftLeft_add_eq_or_of_lt low, Nat.add_comm]

theorem isContinuation_iff : ∀ c < 256, (isContinuation c = true ↔ 0x80 ≤ c ∧ c < 0xC0) := by
  decide +kernel

theorem startByte_eq {c len : Nat} (two : 2 ≤ len) (four : len ≤ 4)
    (small : c < 2 ^ (7 - len)) : c ||| startMark len = c + (0x100 - 2 ^ (8 - len)) := by
  interval_cases len
  · have mark : startMark 2 = 6 <<< 5 := rfl
    rw [mark, Nat.or_comm, ← shiftLeft_add_eq_or_of_lt small, Nat.add_comm]
    rfl
  · have mark : startMark 3 = 14 <<< 4 := rfl
    rw [mark, Nat.or_comm, ← shiftLeft_add_eq_or_of_lt small, Nat.add_comm]
    rfl
  · have mark : startMark 4 = 30 <<< 3 := rfl
    rw [mark, Nat.or_comm, ← shiftLeft_add_eq_or_of_lt small, Nat.add_comm]
    rfl

theorem and_startMask (c : Nat) {len : Nat} (four : len ≤ 4) :
    c &&& startMask len = c % 2 ^ (7 - len) := by
  have mask : startMask len = 2 ^ (7 - len) - 1 := by
    interval_cases len <;> rfl
  rw [mask]
  exact and_two_pow_sub_one_eq_mod c (7 - len)

theorem utf8Skip_eq (byte : UInt8) : utf8Skip byte =
      if byte.toNat < 0xC0 then 1 else if byte.toNat < 0xE0 then 2
      else if byte.toNat < 0xF0 then 3 else if byte.toNat < 0xF8 then 4
      else if byte.toNat < 0xFC then 5 else 6 := by
  have table : ∀ n < 256, utf8SkipTable.getD n 0 =
      if n < 0xC0 then 1 else if n < 0xE0 then 2 else if n < 0xF0 then 3
      else if n < 0xF8 then 4 else if n < 0xFC then 5 else 6 := by
    decide +kernel
  exact table byte.toNat byte.toNat_lt

end RakudoStar.Strings
