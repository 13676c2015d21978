import RakudoStar.Strings.Spelling
import Mathlib.Data.Nat.Digits.Lemmas

/-!
# Integers as text

`Parrot_str_to_int` and `Parrot_str_from_int_base`.  `INTVAL` and `HUGEINTVAL` have 64 bits; a
character before the buffer is as much outside as one behind it.
-/

namespace RakudoStar.Strings

open List RakudoStar.Except

/-- A value in an `UINTVAL`. -/
def toUintval (n : Int) : Nat := (n % 2 ^ 64).toNat

/-- The bits of an `UINTVAL` in an `INTVAL`. -/
def toIntval (u : Nat) : Int := if u < 2 ^ 63 then u else u - 2 ^ 64

def intvalMin : Int := -2 ^ 63

def intvalMax : Int := 2 ^ 63 - 1

/-- `Integer value of String '%S' too big`, or what an access ends with. -/
inductive ToIntFault where
  | errOverflow (s : ParrotString)
  | access (fault : Fault)
  deriving DecidableEq, Repr

def maxSafe : Nat := toUintval (-intvalMin) / 10

def lastDig : Nat := toUintval (-intvalMin) % 10

/-- An access to a string, where its faults are those of the conversion. -/
def accessing {α : Type} (access : Except Fault α) : Except ToIntFault α :=
  access.mapError ToIntFault.access

/-- `c = count-- > 0 ? STRING_iter_get_and_advance(interp, s, &iter) : 0;` -/
def nextOrZero (order : ByteOrder) (s : ParrotString) :
    Nat → StringIter → Except ToIntFault (Nat × Nat × StringIter)
  | 0, iter => .ok (0, 0, iter)
  | count + 1, iter => do
    let (c, iter) ← accessing (iterGetAndAdvanceOf order s iter)
    .ok (c, count, iter)

/-- `while (c == ' ')`, with the number of code points that are left. -/
def skipSpaces (order : ByteOrder) (s : ParrotString) :
    Nat → Nat → StringIter → Except ToIntFault (Nat × Nat × StringIter)
  | 0, c, iter => if c = 32 then nextOrZero order s 0 iter else .ok (c, 0, iter)
  | count + 1, c, iter =>
    if c = 32 then do
      let (c, iter) ← accessing (iterGetAndAdvanceOf order s iter)
      skipSpaces order s count c iter
    else .ok (c, count + 1, iter)

/-- `while (c)`, with the number of code points that are left. -/
def readDigits (order : ByteOrder) (s : ParrotString) :
    Nat → Nat → StringIter → Nat → Except ToIntFault Nat
  | count, c, iter, i =>
    if c = 0 then .ok i
    else
      let nextval := toUintval (c - 48)
      if 9 < nextval then .ok i
      else if i < maxSafe ∨ i = maxSafe ∧ nextval ≤ lastDig then
        let i := toUintval (i * 10 + nextval)
        match count with
        | 0 => .ok i
        | count + 1 => do
          let (c, iter) ← accessing (iterGetAndAdvanceOf order s iter)
          readDigits order s count c iter i
      else .error (.errOverflow s)

/-- `Parrot_str_to_int` of a string that is not null. -/
def strToInt (order : ByteOrder) (s : ParrotString) : Except ToIntFault Int := do
  let (c, count, iter) ← nextOrZero order s s.strlen .init
  let (c, count, iter) ← skipSpaces order s count c iter
  let sign : Int := if c = 45 then -1 else 1
  let (c, count, iter) ←
    if c = 45 ∨ c = 43 then nextOrZero order s count iter else .ok (c, count, iter)
  let i ← readDigits order s count c iter 0
  if sign = 1 ∧ intvalMax < i then .error (.errOverflow s)
  else .ok (toIntval (if sign = -1 then toUintval (-i) else i))

/-- `*--p = c;` -/
def storeBefore (tc : List UInt8) (p : Nat) (c : Nat) : Except Fault (List UInt8 × Nat) :=
  match p with
  | 0 => .error (.outside 0)
  | p + 1 =>
    if p < tc.length then .ok (tc.set p (UInt8.ofNat c), p) else .error (.outside p)

/-- The digit that is stored for `cur`. -/
def digitCharacter (cur : Nat) : Nat := if cur < 10 then 48 + cur else 97 + cur - 10

/-- The loop over the digits, the last one first. -/
def storeDigits (base : Nat) : Nat → Nat → List UInt8 → Except Fault (List UInt8 × Nat)
  | 0, _, _ => .error (.outside 0)
  | p + 1, num, tc => do
    let (tc, _) ← storeBefore tc (p + 1) (digitCharacter (num % base))
    if num / base ≠ 0 then storeDigits base p (num / base) tc else .ok (tc, p)

/-- `Parrot_str_from_uint`. The default encoding is ASCII. -/
def strFromUint (order : ByteOrder) (tc : List UInt8) (num base : Nat) (minus : Bool) :
    Except Fault ParrotString := do
  let tail := 8 * 8 + 1
  let (tc, p) ← storeDigits base tail num tc
  let (tc, p) ← if minus then storeBefore tc p 45 else .ok (tc, p)
  let bytes := (tc.drop p).take (tail - p)
  let strlen ← stringScan order .ascii bytes
  .ok ⟨.ascii, bytes, strlen, 0⟩

/-- `Parrot_str_from_int_base`. The minimum is its own negation. -/
def strFromIntBase (order : ByteOrder) (tc : List UInt8) (num : Int) (base : Nat) :
    Except Fault ParrotString :=
  let isNeg := decide (num < 0)
  let num := if isNeg then toIntval (toUintval (-num)) else num
  strFromUint order tc (toUintval num) base isNeg

/-- `Parrot_str_from_int`, whose buffer holds whatever was on the stack. -/
def strFromInt (order : ByteOrder) (buf : List UInt8) (i : Int) : Except Fault ParrotString :=
  strFromIntBase order buf i 10

/-- Spaces, a sign and digits. -/
structure Numeral where
  spaces : Nat
  sign : Option Bool
  digits : List (Fin 10)
  deriving DecidableEq, Repr

namespace Numeral

/-- `+` and `-`, the negative sign. -/
def signText : Option Bool → List Nat
  | none => []
  | some false => [43]
  | some true => [45]

def digitText (digits : List (Fin 10)) : List Nat := digits.map fun d => 48 + d.val

def text (n : Numeral) : List Nat :=
  List.replicate n.spaces 32 ++ (signText n.sign ++ digitText n.digits)

def magnitude (digits : List (Fin 10)) : Nat := Nat.ofDigits 10 (digits.reverse.map Fin.val)

def value (n : Numeral) : Int :=
  if n.sign = some true then -(magnitude n.digits) else magnitude n.digits

/-- The digits that a text begins with. -/
def leadingDigits : List Nat → List (Fin 10)
  | [] => []
  | c :: rest =>
    if isDigit : 48 ≤ c ∧ c - 48 < 10 then ⟨c - 48, isDigit.2⟩ :: leadingDigits rest else []

/-- The longest numeral that a text begins with. -/
def leading : List Nat → Numeral
  | [] => ⟨0, none, []⟩
  | c :: rest =>
    if c = 32 then { leading rest with spaces := (leading rest).spaces + 1 }
    else if c = 45 then ⟨0, some true, leadingDigits rest⟩
    else if c = 43 then ⟨0, some false, leadingDigits rest⟩
    else ⟨0, none, leadingDigits (c :: rest)⟩

/-- No numeral that the text begins with is longer. -/
def IsLongest (n : Numeral) (cs : List Nat) : Prop :=
  n.text <+: cs ∧ ∀ m : Numeral, m.text <+: cs → m.text.length ≤ n.text.length

end Numeral

/-- The digits of a number, without leading zeros. -/
def digitsText (base n : Nat) : List Nat :=
  if n = 0 then [48] else (Nat.digits base n).reverse.map digitCharacter

/-- The minimal signed numeral of an integer. -/
def integerText (base : Nat) (i : Int) : List Nat :=
  (if i < 0 then [45] else []) ++ digitsText base i.natAbs

open Foundation

namespace Numeral

variable (digits : List (Fin 10)) {cs : List Nat}

theorem leadingDigits_digitText : leadingDigits (digitText digits) = digits := by
  induction digits with
  | nil => rfl
  | cons d digits ih =>
    have isDigit : 48 ≤ 48 + d.val ∧ 48 + d.val - 48 < 10 := by omega
    change leadingDigits ((48 + d.val) :: digitText digits) = _
    rw [leadingDigits, dif_pos isDigit, ih]
    congr 1
    exact Fin.ext (Nat.add_sub_cancel_left ..)

theorem digitText_leadingDigits (cs : List Nat) : digitText (leadingDigits cs) <+: cs := by
  induction cs with
  | nil => exact nil_prefix
  | cons c rest ih =>
    rw [leadingDigits]
    split
    · next isDigit =>
        change (48 + (c - 48)) :: digitText (leadingDigits rest) <+: c :: rest
        rw [Nat.add_sub_cancel' isDigit.1]
        exact cons_prefix_cons.mpr ⟨rfl, ih⟩
    · exact nil_prefix

theorem length_le_leadingDigits {digits : List (Fin 10)}
    (begins : digitText digits <+: cs) : digits.length ≤ (leadingDigits cs).length := by
  induction digits generalizing cs with
  | nil => exact Nat.zero_le _
  | cons d digits ih =>
    cases cs with
    | nil => exact absurd (prefix_nil.mp begins) (cons_ne_nil _ _)
    | cons c rest =>
      rcases cons_prefix_cons.mp begins with ⟨rfl, more⟩
      have isDigit : 48 ≤ 48 + d.val ∧ 48 + d.val - 48 < 10 := by omega
      change digits.length + 1 ≤ (leadingDigits ((48 + d.val) :: rest)).length
      rw [leadingDigits, dif_pos isDigit]
      exact Nat.succ_le_succ (ih more)

variable (n : Numeral) {c : Nat}

theorem length_text : n.text.length = n.spaces + ((signText n.sign).length + n.digits.length) := by
  rw [text, length_append, length_append, length_replicate, digitText, length_map]

theorem text_cons_space : ({ n with spaces := n.spaces + 1 } : Numeral).text = 32 :: n.text := rfl

theorem leading_digitText : leading (digitText digits) = ⟨0, none, digits⟩ := by
  cases digits with
  | nil => rfl
  | cons d digits =>
    have first : digitText (d :: digits) = (48 + d.val) :: digitText digits := rfl
    rw [first, leading, if_neg (by omega), if_neg (by omega), if_neg (by omega), ← first,
      leadingDigits_digitText]

theorem leading_text : leading n.text = n := by
  rcases n with ⟨spaces, sign, digits⟩
  induction spaces with
  | zero =>
    cases sign with
    | none => exact leading_digitText digits
    | some negative =>
      cases negative with
      | false =>
        change leading (43 :: digitText digits) = _
        rw [leading, if_neg (by decide), if_neg (by decide), if_pos rfl, leadingDigits_digitText]
      | true =>
        change leading (45 :: digitText digits) = _
        rw [leading, if_neg (by decide), if_pos rfl, leadingDigits_digitText]
  | succ spaces ih =>
    rw [show (⟨spaces + 1, sign, digits⟩ : Numeral).text =
      32 :: (⟨spaces, sign, digits⟩ : Numeral).text from rfl, leading, if_pos rfl, ih]

theorem text_leading_isPrefix (cs : List Nat) : (leading cs).text <+: cs := by
  induction cs with
  | nil => exact nil_prefix
  | cons c rest ih =>
    rw [leading]
    split
    · next space =>
        subst space
        exact cons_prefix_cons.mpr ⟨rfl, ih⟩
    split
    · next minus =>
        subst minus
        exact cons_prefix_cons.mpr ⟨rfl, digitText_leadingDigits rest⟩
    split
    · next plus =>
        subst plus
        exact cons_prefix_cons.mpr ⟨rfl, digitText_leadingDigits rest⟩
    · exact digitText_leadingDigits (c :: rest)

theorem length_le_of_no_spaces {sign : Option Bool} {digits : List (Fin 10)}
    {rest : List Nat} (begins : (⟨0, sign, digits⟩ : Numeral).text <+: c :: rest) :
    sign = none ∧ digits.length ≤ (leadingDigits (c :: rest)).length ∨
      ∃ negative, sign = some negative ∧ [c] = signText sign ∧
        digits.length ≤ (leadingDigits rest).length := by
  cases sign with
  | none => exact .inl ⟨rfl, length_le_leadingDigits begins⟩
  | some negative =>
    right
    cases negative with
    | false =>
      rcases cons_prefix_cons.mp begins with ⟨rfl, more⟩
      exact ⟨false, rfl, rfl, length_le_leadingDigits more⟩
    | true =>
      rcases cons_prefix_cons.mp begins with ⟨rfl, more⟩
      exact ⟨true, rfl, rfl, length_le_leadingDigits more⟩

theorem leadingDigits_of_not_digit (rest : List Nat) (other : c < 48) :
    leadingDigits (c :: rest) = [] := by
  rw [leadingDigits, dif_neg (by omega)]

theorem length_le_leading {m : Numeral} (begins : m.text <+: cs) :
    m.text.length ≤ (leading cs).text.length := by
  induction cs generalizing m with
  | nil =>
    rw [prefix_nil.mp begins]
    exact Nat.zero_le _
  | cons c rest ih =>
    rcases m with ⟨spaces, sign, digits⟩
    cases spaces with
    | succ spaces =>
      rcases cons_prefix_cons.mp begins with ⟨rfl, more⟩
      rw [leading, if_pos rfl, text_cons_space, length_cons]
      exact Nat.succ_le_succ (@ih ⟨spaces, sign, digits⟩ more)
    | zero =>
      have parts := length_le_of_no_spaces begins
      rw [length_text, length_text, leading]
      by_cases space : c = 32
      · subst space
        rcases parts with ⟨rfl, few⟩ | ⟨negative, rfl, same, -⟩
        · rw [leadingDigits_of_not_digit rest (by decide)] at few
          rw [if_pos rfl]
          exact Nat.le_trans (Nat.le_of_eq (by simpa [signText] using few)) (Nat.zero_le _)
        · cases negative <;> cases same
      rw [if_neg space]
      by_cases minus : c = 45
      · subst minus
        rw [if_pos rfl]
        rcases parts with ⟨rfl, few⟩ | ⟨negative, rfl, same, few⟩
        · rw [leadingDigits_of_not_digit rest (by decide)] at few
          exact Nat.le_trans (Nat.le_of_eq (by simpa [signText] using few)) (Nat.zero_le _)
        cases negative with
        | false => cases same
        | true => exact Nat.add_le_add_left (Nat.add_le_add_left few _) _
      rw [if_neg minus]
      by_cases plus : c = 43
      · subst plus
        rw [if_pos rfl]
        rcases parts with ⟨rfl, few⟩ | ⟨negative, rfl, same, few⟩
        · rw [leadingDigits_of_not_digit rest (by decide)] at few
          exact Nat.le_trans (Nat.le_of_eq (by simpa [signText] using few)) (Nat.zero_le _)
        cases negative with
        | false => exact Nat.add_le_add_left (Nat.add_le_add_left few _) _
        | true => cases same
      rw [if_neg plus]
      rcases parts with ⟨rfl, few⟩ | ⟨negative, rfl, same, -⟩
      · exact Nat.add_le_add_left (Nat.add_le_add_left few _) _
      cases negative with
      | false => exact absurd (singleton_inj.mp same) plus
      | true => exact absurd (singleton_inj.mp same) minus

theorem isLongest_iff (cs : List Nat) : n.IsLongest cs ↔ n = leading cs := by
  constructor
  · rintro ⟨begins, longest⟩
    have lengths : n.text.length = (leading cs).text.length :=
      le_antisymm (length_le_leading begins) (longest _ (text_leading_isPrefix cs))
    have same : n.text = (leading cs).text :=
      (prefix_of_prefix_length_le begins (text_leading_isPrefix cs) lengths.le).eq_of_length lengths
    rw [← leading_text n, same, leading_text]
  · rintro rfl
    exact ⟨text_leading_isPrefix cs, fun m => length_le_leading⟩

theorem foldl_magnitude (i : Nat) :
    digits.foldl (fun sum d => sum * 10 + d.val) i = i * 10 ^ digits.length + magnitude digits := by
  induction digits generalizing i with
  | nil => rw [foldl_nil, length_nil, pow_zero, mul_one]; rfl
  | cons d digits ih =>
    have value : magnitude (d :: digits) = d.val * 10 ^ digits.length + magnitude digits := by
      rw [magnitude, reverse_cons, map_append, Nat.ofDigits_append, map_singleton,
        Nat.ofDigits_singleton, length_map, length_reverse, magnitude]
      ring
    rw [foldl_cons, ih, value, length_cons]
    ring

end Numeral

section

open Numeral

variable {order : ByteOrder} {seed : UInt64} {s : ParrotString}

/-- `c` is the code point that was read last: the text goes on with it, or it is at its end. -/
def Current (c : Nat) (rest text : List Nat) : Prop :=
  text = c :: rest ∨ text = [] ∧ c = 0 ∧ rest = []

variable (spells : Spells order seed s cs)

include spells

variable {c i : Nat} {iter : StringIter} {rest text : List Nat} (digits : List (Fin 10))

theorem nextOrZero_spec (before : AtSuffix order s cs iter text) :
    ∃ c rest next, nextOrZero order s text.length iter = .ok (c, rest.length, next) ∧
      Current c rest text ∧ AtSuffix order s cs next rest := by
  cases text with
  | nil => exact ⟨0, [], iter, rfl, .inr ⟨rfl, rfl, rfl⟩, before⟩
  | cons c rest =>
    rcases before.read spells with ⟨next, read, after⟩
    refine ⟨c, rest, next, ?_, .inl rfl, after⟩
    rw [length_cons, nextOrZero, accessing, read]
    rfl

theorem skipSpaces_spec (current : Current c rest text) (before : AtSuffix order s cs iter rest) :
    ∃ d last next n, skipSpaces order s rest.length c iter = .ok (d, last.length, next) ∧
      d ≠ 32 ∧ AtSuffix order s cs next last ∧
      ∃ others, Current d last others ∧ text = replicate n 32 ++ others := by
  induction rest generalizing c text iter with
  | nil =>
    by_cases space : c = 32
    · refine ⟨0, [], iter, 1, ?_, by decide, before, [], .inr ⟨rfl, rfl, rfl⟩, ?_⟩
      · rw [length_nil, skipSpaces, if_pos space]
        rfl
      rcases current with rfl | ⟨-, zero, -⟩
      · rw [space]
        rfl
      · rw [zero] at space
        cases space
    · refine ⟨c, [], iter, 0, ?_, space, before, text, current, rfl⟩
      rw [length_nil, skipSpaces, if_neg space]
  | cons d rest ih =>
    have whole : text = c :: d :: rest := by
      rcases current with whole | ⟨-, -, impossible⟩
      · exact whole
      · cases impossible
    subst whole
    by_cases space : c = 32
    · subst space
      rcases before.read spells with ⟨next, read, after⟩
      rcases ih (.inl rfl) after with ⟨e, last, final, n, run, other, finalAt, others, there, split⟩
      refine ⟨e, last, final, n + 1, ?_, other, finalAt, others, there, ?_⟩
      · rw [length_cons, skipSpaces, if_pos rfl, accessing, read]
        exact run
      · rw [split]
        rfl
    · refine ⟨c, d :: rest, iter, 0, ?_, space, before, c :: d :: rest, .inl rfl, rfl⟩
      rw [length_cons, skipSpaces, if_neg space]

omit spells in
theorem leadingDigits_current (current : Current c rest text) : leadingDigits text =
      if isDigit : 48 ≤ c ∧ c - 48 < 10 then ⟨c - 48, isDigit.2⟩ :: leadingDigits rest else [] := by
  rcases current with rfl | ⟨rfl, rfl, rfl⟩
  · rfl
  · rfl

omit spells in
theorem le_foldl (i : Nat) : i ≤ digits.foldl (fun sum d => sum * 10 + d.val) i := by
  rw [foldl_magnitude]
  exact Nat.le_add_right_of_le (Nat.le_mul_of_pos_right i (Nat.pow_pos (by decide)))

omit spells in
theorem fits_iff {digit : Nat} (small : digit < 10) :
    i < maxSafe ∨ i = maxSafe ∧ digit ≤ lastDig ↔ i * 10 + digit ≤ 2 ^ 63 := by
  have safe : maxSafe = 922337203685477580 := rfl
  have last : lastDig = 8 := rfl
  rw [safe, last]
  omega

omit spells in
theorem nextval_digit (small : c < 2 ^ 64) :
    9 < toUintval ((c : Int) - 48) ↔ ¬(48 ≤ c ∧ c - 48 < 10) := by
  unfold toUintval
  omega

omit spells in
theorem toUintval_digit (isDigit : 48 ≤ c ∧ c - 48 < 10) : toUintval ((c : Int) - 48) = c - 48 := by
  unfold toUintval
  omega

theorem readDigits_spec (current : Current c rest text) (small : c < 2 ^ 64)
    (before : AtSuffix order s cs iter rest) (inside : i ≤ 2 ^ 63) :
    readDigits order s rest.length c iter i =
      if (leadingDigits text).foldl (fun sum d => sum * 10 + d.val) i ≤ 2 ^ 63 then
        .ok ((leadingDigits text).foldl (fun sum d => sum * 10 + d.val) i)
      else .error (.errOverflow s) := by
  induction rest generalizing c text iter i with
  | nil =>
    rw [readDigits, leadingDigits_current current]
    by_cases isDigit : 48 ≤ c ∧ c - 48 < 10
    · rw [if_neg (by omega), if_neg ((nextval_digit small).not.mpr (not_not.mpr isDigit)),
        toUintval_digit isDigit, dif_pos isDigit, leadingDigits, foldl_cons, foldl_nil]
      dsimp only
      by_cases fits : i * 10 + (c - 48) ≤ 2 ^ 63
      · rw [if_pos ((fits_iff isDigit.2).mpr fits), if_pos fits]
        change Except.ok (toUintval ((i : Int) * 10 + ((c - 48 : Nat) : Int))) = _
        congr 1
        unfold toUintval
        omega
      · rw [if_neg ((fits_iff isDigit.2).not.mpr fits), if_neg fits]
    rw [dif_neg isDigit, foldl_nil, if_pos inside]
    by_cases zero : c = 0
    · rw [if_pos zero]
    · rw [if_neg zero, if_pos ((nextval_digit small).mpr isDigit)]
  | cons d rest ih =>
    rw [readDigits, leadingDigits_current current]
    by_cases isDigit : 48 ≤ c ∧ c - 48 < 10
    · rw [if_neg (by omega), if_neg ((nextval_digit small).not.mpr (not_not.mpr isDigit)),
        toUintval_digit isDigit, dif_pos isDigit, foldl_cons]
      dsimp only
      by_cases fits : i * 10 + (c - 48) ≤ 2 ^ 63
      · rcases before.read spells with ⟨next, read, after⟩
        have value : toUintval ((i : Int) * 10 + ((c - 48 : Nat) : Int)) = i * 10 + (c - 48) := by
          unfold toUintval
          omega
        have dSmall := spells.lt (before.mem mem_cons_self)
        rw [if_pos ((fits_iff isDigit.2).mpr fits), value, length_cons, accessing, read]
        exact ih (.inl rfl) (by omega) after fits
      · have more := le_foldl (leadingDigits (d :: rest)) (i * 10 + (c - 48))
        rw [if_neg ((fits_iff isDigit.2).not.mpr fits), if_neg (by omega)]
    rw [dif_neg isDigit, foldl_nil, if_pos inside]
    by_cases zero : c = 0
    · rw [if_pos zero]
    · rw [if_neg zero, if_pos ((nextval_digit small).mpr isDigit)]

omit spells in
theorem value_leading_spaces (n : Nat) (text : List Nat) :
    (leading (replicate n 32 ++ text)).value = (leading text).value := by
  induction n with
  | zero => rfl
  | succ n ih =>
    rw [replicate_succ, cons_append, leading, if_pos rfl, ← ih]
    rfl

omit spells in
theorem foldl_zero : digits.foldl (fun sum d => sum * 10 + d.val) 0 = magnitude digits := by
  rw [foldl_magnitude, Nat.zero_mul, Nat.zero_add]

theorem readDigits_value (current : Current c rest text)
    (within : ∀ d ∈ text, d < 0x110000) (before : AtSuffix order s cs iter rest) :
    readDigits order s rest.length c iter 0 =
      if magnitude (leadingDigits text) ≤ 2 ^ 63 then .ok (magnitude (leadingDigits text))
      else .error (.errOverflow s) := by
  have small : c < 2 ^ 64 := by
    rcases current with rfl | ⟨-, rfl, -⟩
    · exact Nat.lt_trans (within c mem_cons_self) (by decide)
    · decide
  rw [readDigits_spec spells current small before (Nat.zero_le _), foldl_zero]

omit spells in
theorem signed_result {sign value : Int} {m : Nat}
    (signed : sign = 1 ∧ value = m ∨ sign = -1 ∧ value = -m) :
    ((if m ≤ 2 ^ 63 then .ok m else .error (.errOverflow s)) >>= fun i : Nat =>
      if sign = 1 ∧ intvalMax < (i : Int) then Except.error (ToIntFault.errOverflow s)
      else .ok (toIntval (if sign = -1 then toUintval (-(i : Int)) else i))) =
      if intvalMin ≤ value ∧ value ≤ intvalMax then .ok value else .error (.errOverflow s) := by
  have least : intvalMin = -9223372036854775808 := rfl
  have most : intvalMax = 9223372036854775807 := rfl
  rw [least, most]
  rcases signed with ⟨rfl, rfl⟩ | ⟨rfl, rfl⟩
  · by_cases large : m ≤ 2 ^ 63
    · rw [if_pos large, ok_bind]
      by_cases fits : (m : Int) ≤ 9223372036854775807
      · rw [if_neg (by omega), if_neg (by decide), if_pos (by omega), toIntval, if_pos (by omega)]
      · rw [if_pos (by omega), if_neg (by omega)]
    · rw [if_neg large, if_neg (by omega)]
      rfl
  by_cases large : m ≤ 2 ^ 63
  · rw [if_pos large, ok_bind, if_neg (by omega), if_pos rfl, if_pos (by omega)]
    congr 1
    unfold toIntval toUintval
    split <;> omega
  · rw [if_neg large, if_neg (by omega)]
    rfl

theorem strToInt_leading : strToInt order s =
      if intvalMin ≤ (leading cs).value ∧ (leading cs).value ≤ intvalMax then .ok (leading cs).value
      else .error (.errOverflow s) := by
  have length : s.strlen = cs.length := spells.strlen
  rcases nextOrZero_spec spells (atSuffix_init order s cs) with
    ⟨c, rest, first, started, current, firstAt⟩
  rcases skipSpaces_spec spells current firstAt with
    ⟨d, last, second, n, skipped, other, secondAt, text, here, split⟩
  have value : (leading cs).value = (leading text).value := by rw [split, value_leading_spaces]
  have within : ∀ e ∈ text, e < 0x110000 := by
    intro e member
    apply spells.lt
    rw [split]
    exact mem_append_right _ member
  rw [strToInt, length, started, ok_bind]
  dsimp only
  rw [skipped, ok_bind, value]
  by_cases signed : d = 45 ∨ d = 43
  · have whole : text = d :: last := by
      rcases here with whole | ⟨-, zero, -⟩
      · exact whole
      rcases signed with minus | plus
      · rw [minus] at zero
        cases zero
      · rw [plus] at zero
        cases zero
    subst whole
    rcases nextOrZero_spec spells secondAt with ⟨e, final, third, next, now, thirdAt⟩
    have read := readDigits_value spells now (forall_mem_cons.mp within).2 thirdAt
    rw [if_pos signed, next, ok_bind]
    rw [read]
    apply signed_result
    rcases signed with rfl | rfl
    · exact .inr ⟨rfl, rfl⟩
    · exact .inl ⟨rfl, rfl⟩
  · have read := readDigits_value spells here within secondAt
    have unsigned : leading text = ⟨0, none, leadingDigits text⟩ := by
      rcases here with rfl | ⟨rfl, -, -⟩
      · rw [leading, if_neg other, if_neg fun minus => signed (.inl minus),
          if_neg fun plus => signed (.inr plus)]
      · rfl
    rw [if_neg signed, ok_bind]
    rw [read, if_neg fun minus => signed (.inl minus), unsigned]
    exact signed_result (.inl ⟨rfl, rfl⟩)

end

end RakudoStar.Strings
