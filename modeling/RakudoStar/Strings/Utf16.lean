import RakudoStar.Strings.Scan

/-!
# UTF-16

The functions of `utf16.c`, on the units seen through a `utf16_t` pointer, in the byte order of
the machine; a last odd byte belongs to no unit.
-/

namespace RakudoStar.Strings

open Foundation List RakudoStar.Except Bool

inductive ByteOrder where
  | little
  | big
  deriving DecidableEq, Repr

/-- The unit that two bytes of memory hold. -/
def ByteOrder.join : ByteOrder → UInt8 → UInt8 → UInt16
  | .little, first, second => UInt16.ofNat (first.toNat + 256 * second.toNat)
  | .big, first, second => UInt16.ofNat (256 * first.toNat + second.toNat)

/-- The two bytes of a unit, as they stand in memory. -/
def ByteOrder.split : ByteOrder → UInt16 → List UInt8
  | .little, unit => [UInt8.ofNat (unit.toNat % 256), UInt8.ofNat (unit.toNat / 256)]
  | .big, unit => [UInt8.ofNat (unit.toNat / 256), UInt8.ofNat (unit.toNat % 256)]

/-- The view of bytes through a `utf16_t` pointer. -/
def unitsOf (order : ByteOrder) : List UInt8 → List UInt16
  | first :: second :: bytes => order.join first second :: unitsOf order bytes
  | _ => []

def bytesOf (order : ByteOrder) (units : List UInt16) : List UInt8 := units.flatMap order.split

def utf16Decode (units : List UInt16) (p : Nat) : Except Fault Nat := do
  let unit ← read units p
  if isHighSurrogate unit.toNat then
    let low ← read units (p + 1)
    .ok (decodeSurrogate unit.toNat low.toNat)
  else .ok unit.toNat

def utf16Encode (c : Nat) : Except Fault (List UInt16) :=
  if c < 0xFFFE then
    if isSurrogate c || (0xFDD0 ≤ c && c ≤ 0xFDEF) then
      .error (.thrown .invalidCharacter "Invalid character for UTF-16 encoding\n")
    else .ok [UInt16.ofNat c]
  else if c &&& 0xFFFE == 0xFFFE || 0x10FFFF < c then
    .error (.thrown .invalidCharacter "Invalid character for UTF-16 encoding\n")
  else .ok [UInt16.ofNat (highSurrogate c), UInt16.ofNat (lowSurrogate c)]

/-- One step of `utf16_skip_forward`. -/
def utf16Next (units : List UInt16) (p : Nat) : Except Fault Nat := do
  let unit ← read units p
  .ok (p + utf16Skip unit.toNat)

def utf16SkipForward (units : List UInt16) (p count : Nat) : Except Fault Nat :=
  times (utf16Next units) count p

/-- One step of `utf16_skip_backward`. -/
def utf16Prev (units : List UInt16) : Nat → Except Fault Nat
  | 0 => .error (.outside 0)
  | p + 1 => do
    let unit ← read units p
    if isLowSurrogate unit.toNat then
      match p with
      | 0 => .error (.outside 0)
      | p + 1 => .ok p
    else .ok p

def utf16SkipBackward (units : List UInt16) (p count : Nat) : Except Fault Nat :=
  times (utf16Prev units) count p

/-- The check that ends a round of `utf16_partial_scan`. -/
def utf16Accept (c last : Nat) : Except Fault ScanRound :=
  if isNonCharacter c then
    .error (.thrown .invalidCharacter "Non-character in UTF-16 string\n")
  else .ok (.char c last)

/-- One round of the loop of `utf16_partial_scan`. -/
def utf16Round (p : List UInt16) (len i : Nat) : Except Fault ScanRound := do
  let unit ← read p i
  let c := unit.toNat
  if isHighSurrogate c then
    if len ≤ i + 1 then .ok (.short c 2)
    else
      let low ← read p (i + 1)
      if isLowSurrogate low.toNat then utf16Accept (decodeSurrogate c low.toNat) (i + 1)
      else .error (.thrown .malformedUtf16 "Malformed UTF-16 string\n")
  else if isLowSurrogate c then
    .error (.thrown .malformedUtf16 "Malformed UTF-16 string\n")
  else utf16Accept c i

/-- `utf16_partial_scan`: its result and the bounds it leaves. -/
def utf16PartialScan (order : ByteOrder) (buf : List UInt8) (bounds : Bounds) :
    Except Fault (Nat × Bounds) := do
  let p := unitsOf order buf
  let len := bounds.bytes >>> 1
  let stop ← scanLoop (utf16Round p len) len (maxCharsOf bounds.chars len) bounds.delim len 0 0
    (-1)
  .ok (stop.res, ⟨stop.i <<< 1, stop.chars, stop.c⟩)

/-- `utf16_scan`: the length it stores in the string. -/
def utf16Scan (order : ByteOrder) (src : List UInt8) : Except Fault Nat := do
  let (_, bounds) ← utf16PartialScan order src ⟨src.length, -1, -1⟩
  if bounds.bytes ≠ src.length then
    .error (.thrown .malformedUtf16 "Unaligned end in UTF-16 string\n")
  else .ok bounds.chars.toNat

theorem join_split (order : ByteOrder) (unit : UInt16) :
    ∃ first second, order.split unit = [first, second] ∧ order.join first second = unit := by
  have bound : unit.toNat < 65536 := unit.toNat_lt
  have high : (UInt8.ofNat (unit.toNat / 256)).toNat = unit.toNat / 256 := by
    rw [UInt8.toNat_ofNat']
    omega
  have low : (UInt8.ofNat (unit.toNat % 256)).toNat = unit.toNat % 256 := by
    rw [UInt8.toNat_ofNat']
    omega
  cases order with
  | little =>
    refine ⟨_, _, rfl, ?_⟩
    rw [ByteOrder.join, high, low, Nat.mod_add_div, UInt16.ofNat_toNat]
  | big =>
    refine ⟨_, _, rfl, ?_⟩
    rw [ByteOrder.join, high, low, Nat.div_add_mod, UInt16.ofNat_toNat]

theorem split_join (order : ByteOrder) (first second : UInt8) :
    order.split (order.join first second) = [first, second] := by
  have firstBound := first.toNat_lt
  have secondBound := second.toNat_lt
  cases order with
  | little =>
    have joined : (ByteOrder.join .little first second).toNat =
        first.toNat + 256 * second.toNat := by
      rw [ByteOrder.join, UInt16.toNat_ofNat']
      omega
    have low : (first.toNat + 256 * second.toNat) % 256 = first.toNat := by omega
    have high : (first.toNat + 256 * second.toNat) / 256 = second.toNat := by omega
    rw [ByteOrder.split, joined, low, high, UInt8.ofNat_toNat, UInt8.ofNat_toNat]
  | big =>
    have joined : (ByteOrder.join .big first second).toNat = 256 * first.toNat + second.toNat := by
      rw [ByteOrder.join, UInt16.toNat_ofNat']
      omega
    have low : (256 * first.toNat + second.toNat) % 256 = second.toNat := by omega
    have high : (256 * first.toNat + second.toNat) / 256 = first.toNat := by omega
    rw [ByteOrder.split, joined, low, high, UInt8.ofNat_toNat, UInt8.ofNat_toNat]

@[simp]
theorem unitsOf_bytesOf (order : ByteOrder) (units : List UInt16) :
    unitsOf order (bytesOf order units) = units := by
  induction units with
  | nil => rfl
  | cons unit units ih =>
    obtain ⟨first, second, split, joined⟩ := join_split order unit
    have unfolded : bytesOf order (unit :: units) = first :: second :: bytesOf order units := by
      rw [bytesOf, flatMap_cons, split]
      rfl
    rw [unfolded, unitsOf, joined, ih]

theorem length_bytesOf (order : ByteOrder) (units : List UInt16) :
    (bytesOf order units).length = 2 * units.length := by
  induction units with
  | nil => rfl
  | cons unit units ih =>
    obtain ⟨first, second, split, _⟩ := join_split order unit
    have unfolded : bytesOf order (unit :: units) = first :: second :: bytesOf order units := by
      rw [bytesOf, flatMap_cons, split]
      rfl
    rw [unfolded, length_cons, length_cons, ih, length_cons]
    omega

theorem bytesOf_unitsOf (order : ByteOrder) (bytes : List UInt8) (even : bytes.length % 2 = 0) :
    bytesOf order (unitsOf order bytes) = bytes := by
  match bytes with
  | [] => rfl
  | [_] => cases even
  | first :: second :: bytes =>
    have evenRest : bytes.length % 2 = 0 := by
      rw [length_cons, length_cons] at even
      omega
    have rest := bytesOf_unitsOf order bytes evenRest
    rw [bytesOf] at rest ⊢
    rw [unitsOf, flatMap_cons, split_join, rest]
    rfl

theorem length_unitsOf (order : ByteOrder) (bytes : List UInt8) :
    (unitsOf order bytes).length = bytes.length / 2 := by
  match bytes with
  | [] => rfl
  | [_] => simp [unitsOf]
  | first :: second :: bytes =>
    rw [unitsOf, length_cons, length_unitsOf order bytes, length_cons, length_cons]
    omega

/-- The units of a code point. -/
def utf16Word (c : Nat) : List UInt16 :=
  if c < 0x10000 then [UInt16.ofNat c]
  else [UInt16.ofNat (c / 0x400 + 0xD7C0), UInt16.ofNat (c % 0x400 + 0xDC00)]

theorem utf16Word_ne_nil (c : Nat) : utf16Word c ≠ [] := by
  unfold utf16Word
  split <;> exact cons_ne_nil _ _

def utf16Code : WordCode Nat UInt16 where
  Valid := IsCharacter
  spell := utf16Word
  spell_ne_nil := fun _ => utf16Word_ne_nil _

variable {c len position last i : Nat} {units : List UInt16}

theorem utf16Word_one (small : c < 0x10000) : utf16Word c = [UInt16.ofNat c] := by
  rw [utf16Word, if_pos small]

theorem utf16Word_two (large : 0x10000 ≤ c) :
    utf16Word c = [UInt16.ofNat (c / 0x400 + 0xD7C0), UInt16.ofNat (c % 0x400 + 0xDC00)] := by
  rw [utf16Word, if_neg (by omega)]

theorem utf16Encode_eq (valid : IsCharacter c) : utf16Encode c = .ok (utf16Word c) := by
  obtain ⟨noSurrogate, noArabic, noLast, bound⟩ := valid
  by_cases small : c < 0x10000
  · have below : c < 0xFFFE := by omega
    have accepted : ¬(isSurrogate c || (0xFDD0 ≤ c && c ≤ 0xFDEF)) = true := by
      simp only [or_eq_true, isSurrogate_iff, and_eq_true, decide_eq_true_eq]
      omega
    rw [utf16Encode, if_pos below, if_neg accepted, utf16Word_one small]
  have above : ¬c < 0xFFFE := by omega
  have accepted : ¬(c &&& 0xFFFE == 0xFFFE || 0x10FFFF < c) = true := by
    simp only [or_eq_true, beq_iff_eq, and_fffe_eq_iff, decide_eq_true_eq]
    omega
  rw [utf16Encode, if_neg above, if_neg accepted, utf16Word_two (Nat.le_of_not_lt small),
    highSurrogate_eq, lowSurrogate_eq]

theorem utf16Encode_throws (invalid : ¬IsCharacter c) : utf16Encode c =
      .error (.thrown .invalidCharacter "Invalid character for UTF-16 encoding\n") := by
  unfold IsCharacter at invalid
  by_cases below : c < 0xFFFE
  · have rejected : (isSurrogate c || (0xFDD0 ≤ c && c ≤ 0xFDEF)) = true := by
      simp only [or_eq_true, isSurrogate_iff, and_eq_true, decide_eq_true_eq]
      omega
    rw [utf16Encode, if_pos below, if_pos rejected]
  have rejected : (c &&& 0xFFFE == 0xFFFE || 0x10FFFF < c) = true := by
    simp only [or_eq_true, beq_iff_eq, and_fffe_eq_iff, decide_eq_true_eq]
    omega
  rw [utf16Encode, if_neg below, if_pos rejected]

theorem toNat_ofNat16_of_lt {n : Nat} (small : n < 65536) : (UInt16.ofNat n).toNat = n := by
  rw [UInt16.toNat_ofNat']
  exact Nat.mod_eq_of_lt small

theorem isHighSurrogate_eq_false (other : ¬(0xD800 ≤ c ∧ c < 0xDC00)) :
    isHighSurrogate c = false := by
  rw [← not_eq_true, isHighSurrogate_iff]
  exact other

theorem isLowSurrogate_eq_false (other : ¬(0xDC00 ≤ c ∧ c < 0xE000)) :
    isLowSurrogate c = false := by
  rw [← not_eq_true, isLowSurrogate_iff]
  exact other

theorem utf16Word_single (valid : IsCharacter c) (small : c < 0x10000) :
    ∃ unit : UInt16, utf16Word c = [unit] ∧ unit.toNat = c ∧
      isHighSurrogate c = false ∧ isLowSurrogate c = false := by
  have noSurrogate := valid.1
  exact ⟨_, utf16Word_one small, toNat_ofNat16_of_lt small, isHighSurrogate_eq_false (by omega),
    isLowSurrogate_eq_false (by omega)⟩

theorem utf16Word_pair (valid : IsCharacter c) (large : 0x10000 ≤ c) :
    ∃ high low : UInt16, utf16Word c = [high, low] ∧ isHighSurrogate high.toNat = true ∧
      isLowSurrogate low.toNat = true ∧ decodeSurrogate high.toNat low.toNat = c := by
  have bound := valid.2.2.2
  have high : (UInt16.ofNat (c / 0x400 + 0xD7C0)).toNat = c / 0x400 + 0xD7C0 :=
    toNat_ofNat16_of_lt (by omega)
  have low : (UInt16.ofNat (c % 0x400 + 0xDC00)).toNat = c % 0x400 + 0xDC00 :=
    toNat_ofNat16_of_lt (by omega)
  refine ⟨_, _, utf16Word_two large, ?_, ?_, ?_⟩
  · rw [high, isHighSurrogate_iff]
    omega
  · rw [low, isLowSurrogate_iff]
    omega
  · rw [high, low, decodeSurrogate_eq]
    omega

theorem utf16Word_decode {high low : UInt16} (isHigh : isHighSurrogate high.toNat = true)
    (isLow : isLowSurrogate low.toNat = true) :
    utf16Word (decodeSurrogate high.toNat low.toNat) = [high, low] ∧
      0x10000 ≤ decodeSurrogate high.toNat low.toNat ∧
      decodeSurrogate high.toNat low.toNat ≤ 0x10FFFF := by
  have highRange := (isHighSurrogate_iff _).mp isHigh
  have lowRange := (isLowSurrogate_iff _).mp isLow
  have value : decodeSurrogate high.toNat low.toNat =
      (high.toNat - 0xD800) * 0x400 + (low.toNat - 0xDC00) + 0x10000 := by
    rw [decodeSurrogate_eq]
    omega
  rw [value]
  refine ⟨?_, by omega, by omega⟩
  have highUnit : ((high.toNat - 0xD800) * 0x400 + (low.toNat - 0xDC00) + 0x10000) / 0x400 +
      0xD7C0 = high.toNat := by omega
  have lowUnit : ((high.toNat - 0xD800) * 0x400 + (low.toNat - 0xDC00) + 0x10000) % 0x400 +
      0xDC00 = low.toNat := by omega
  rw [utf16Word_two (by omega), highUnit, lowUnit, UInt16.ofNat_toNat, UInt16.ofNat_toNat]

section

variable (before after : List UInt16) {c : Nat}

theorem drop_around (word : List UInt16) :
    (before ++ word ++ after).drop before.length = word ++ after := by
  rw [append_assoc, drop_left]

theorem drop_around_succ (high low : UInt16) :
    (before ++ [high, low] ++ after).drop (before.length + 1) = low :: after := by
  rw [← drop_drop, drop_around]
  rfl

theorem utf16Decode_word (valid : IsCharacter c) :
    utf16Decode (before ++ utf16Word c ++ after) before.length = .ok c := by
  by_cases small : c < 0x10000
  · obtain ⟨unit, word, value, notHigh, _⟩ := utf16Word_single valid small
    rw [word, utf16Decode, read_of_drop (drop_around ..), ok_bind, value, notHigh]
    rfl
  obtain ⟨high, low, word, isHigh, _, value⟩ := utf16Word_pair valid (Nat.le_of_not_lt small)
  rw [word, utf16Decode, read_of_drop (drop_around ..), ok_bind, if_pos isHigh,
    read_of_drop (drop_around_succ ..), ok_bind, value]

theorem utf16Next_word (valid : IsCharacter c) :
    utf16Next (before ++ utf16Word c ++ after) before.length =
      .ok (before.length + (utf16Word c).length) := by
  by_cases small : c < 0x10000
  · obtain ⟨unit, word, value, notHigh, _⟩ := utf16Word_single valid small
    rw [word, utf16Next, read_of_drop (drop_around ..), ok_bind, value, utf16Skip, notHigh]
    rfl
  obtain ⟨high, low, word, isHigh, _, _⟩ := utf16Word_pair valid (Nat.le_of_not_lt small)
  rw [word, utf16Next, read_of_drop (drop_around ..), ok_bind, utf16Skip, if_pos isHigh]
  rfl

theorem utf16Prev_word (valid : IsCharacter c) :
    utf16Prev (before ++ utf16Word c ++ after) (before.length + (utf16Word c).length) =
      .ok before.length := by
  by_cases small : c < 0x10000
  · obtain ⟨unit, word, value, _, notLow⟩ := utf16Word_single valid small
    rw [word, length_singleton, utf16Prev.eq_def]
    dsimp only
    rw [read_of_drop (drop_around ..), ok_bind, value, notLow]
    rfl
  obtain ⟨high, low, word, _, isLow, _⟩ := utf16Word_pair valid (Nat.le_of_not_lt small)
  have size : before.length + [high, low].length = before.length + 1 + 1 := rfl
  rw [word, size, utf16Prev.eq_def]
  dsimp only
  rw [read_of_drop (drop_around_succ ..), ok_bind, if_pos isLow]

end

/-- `utf16_decode`, `utf16_skip_forward` and `utf16_skip_backward` are a cursor of
UTF-16. -/
def utf16Cursor : Cursor Fault utf16Code where
  get := utf16Decode
  next := utf16Next
  prev := utf16Prev
  get_spell := utf16Decode_word
  next_spell := utf16Next_word
  prev_spell := utf16Prev_word

theorem utf16Accept_eq_ok_iff {d stop : Nat} : utf16Accept c last = .ok (.char d stop) ↔
      isNonCharacter c = false ∧ c = d ∧ last = stop := by
  unfold utf16Accept
  cases isNonCharacter c <;> simp

theorem utf16Round_sound (going : i < len) (run : utf16Round units len i = .ok (.char c last)) :
    IsCharacter c ∧ units.drop i = utf16Word c ++ units.drop (last + 1) ∧
      last + 1 = i + (utf16Word c).length ∧ last < len := by
  rw [utf16Round] at run
  obtain ⟨unit, found, looked⟩ := of_bind run
  dsimp only at looked
  split at looked
  · rename_i isHigh
    split at looked
    · cases looked
    rename_i complete
    obtain ⟨low, foundLow, looked⟩ := of_bind looked
    split at looked
    · rename_i isLow
      obtain ⟨accepted, rfl, rfl⟩ := utf16Accept_eq_ok_iff.mp looked
      obtain ⟨word, above, bound⟩ := utf16Word_decode isHigh isLow
      have character := (isNonCharacter_eq_false_iff _).mp accepted
      refine ⟨⟨by omega, by omega, character.1, bound⟩, ?_, ?_, by omega⟩
      · rw [word, drop_of_read found, drop_of_read foundLow]
        rfl
      · rw [word]
        rfl
    · cases looked
  · rename_i notHigh
    split at looked
    · cases looked
    rename_i notLow
    obtain ⟨accepted, rfl, rfl⟩ := utf16Accept_eq_ok_iff.mp looked
    have bound := unit.toNat_lt
    have character := (isNonCharacter_eq_false_iff _).mp accepted
    rw [isHighSurrogate_iff] at notHigh
    rw [isLowSurrogate_iff] at notLow
    have word : utf16Word unit.toNat = [unit] := by
      rw [utf16Word_one bound, UInt16.ofNat_toNat]
    refine ⟨⟨by omega, character.2, character.1, by omega⟩, ?_, ?_, going⟩
    · rw [word, drop_of_read found]
      rfl
    · rw [word]
      rfl

theorem utf16Round_complete {rest : List UInt16}
    (valid : IsCharacter c) (here : units.drop i = utf16Word c ++ rest)
    (fits : i + (utf16Word c).length ≤ len) :
    utf16Round units len i = .ok (.char c (i + (utf16Word c).length - 1)) := by
  have accepted : isNonCharacter c = false :=
    (isNonCharacter_eq_false_iff c).mpr ⟨valid.2.2.1, valid.2.1⟩
  by_cases small : c < 0x10000
  · obtain ⟨unit, word, value, notHigh, notLow⟩ := utf16Word_single valid small
    rw [word] at here ⊢
    rw [utf16Round, read_of_drop here, ok_bind, value]
    rw [if_neg (eq_false_iff.mp notHigh), if_neg (eq_false_iff.mp notLow)]
    exact utf16Accept_eq_ok_iff.mpr ⟨accepted, rfl, rfl⟩
  obtain ⟨high, low, word, isHigh, isLow, value⟩ := utf16Word_pair valid (Nat.le_of_not_lt small)
  rw [word] at here fits ⊢
  have room : ¬len ≤ i + 1 := by
    rw [length_cons, length_singleton] at fits
    omega
  have next : units.drop (i + 1) = low :: rest := by
    rw [← drop_drop, here]
    rfl
  rw [utf16Round, read_of_drop here, ok_bind, if_pos isHigh, if_neg room,
    read_of_drop next, ok_bind, if_pos isLow, value]
  exact utf16Accept_eq_ok_iff.mpr ⟨accepted, rfl, rfl⟩

theorem utf16Accept_inside : utf16Accept c last ≠ .error (.outside position) := by
  unfold utf16Accept
  cases isNonCharacter c <;> simp

theorem utf16Round_inside (fits : len ≤ units.length) (going : i < len) :
    utf16Round units len i ≠ .error (.outside position) := by
  rw [utf16Round, read_of_lt (show i < units.length by omega), ok_bind]
  dsimp only
  split
  · split
    · nofun
    rw [read_of_lt (show i + 1 < units.length by omega), ok_bind]
    split
    · exact utf16Accept_inside
    · nofun
  · split
    · nofun
    · exact utf16Accept_inside

theorem utf16Round_recognises (fits : len ≤ units.length) :
    Recognises utf16Code units len (utf16Round units len) where
  sound := utf16Round_sound
  complete := utf16Round_complete
  inside := utf16Round_inside fits

end RakudoStar.Strings
