import RakudoStar.Strings.Codecs
import RakudoStar.Foundation.LittleEndian

/-!
# Strings and their iterators

The seven encodings, the header of a string, and the iterator entries of their vtables: an
iterator at a code point reads it and moves to the boundaries of the others, whatever the
encoding is.
-/

namespace RakudoStar.Strings

open Foundation List Nat

inductive Encoding where
  | ascii
  | latin1
  | binary
  | utf8
  | utf16
  | ucs2
  | ucs4
  deriving DecidableEq, Repr

def Encoding.maxBytesPerCodepoint : Encoding → Nat
  | .ascii | .latin1 | .binary => 1
  | .utf8 => 4
  | .utf16 => 4
  | .ucs2 => 2
  | .ucs4 => 4

/-- The fields of `STRING` that its contents depend on. -/
structure ParrotString where
  encoding : Encoding
  bytes : List UInt8
  strlen : Nat
  hashval : UInt64
  deriving DecidableEq, Repr

/-- The view of bytes through a `utf32_t` pointer. -/
def codesOf (order : ByteOrder) : List UInt8 → List Nat
  | a :: b :: c :: d :: bytes =>
    (match order with
      | .little => ofBytes [a, b, c, d]
      | .big => ofBytes [d, c, b, a]) :: codesOf order bytes
  | _ => []

/-- The four bytes of a `utf32_t`, as they stand in memory. -/
def ByteOrder.split4 (order : ByteOrder) (c : Nat) : List UInt8 :=
  match order with
  | .little => toBytes 4 c
  | .big => (toBytes 4 c).reverse

/-- The fixed-width `iter_get_and_advance`, by the character position. -/
def fixedGetAndAdvance {U : Type} (toNat : U → Nat) (width : Nat) (ptr : List U) (i : StringIter) :
    Except Fault (Nat × StringIter) := do
  let unit ← read ptr i.charpos
  .ok (toNat unit, ⟨i.bytepos + width, i.charpos + 1⟩)

/-- The body of the fixed-width `iter_skip` functions. -/
def fixedSkip (width : Nat) (i : StringIter) (skip : Int) : StringIter :=
  ⟨(i.bytepos + skip * width).toNat, (i.charpos + skip).toNat⟩

def fixed8IterGetAndAdvance (str : List UInt8) : StringIter → Except Fault (Nat × StringIter) :=
  fixedGetAndAdvance UInt8.toNat 1 str

def ucs2IterGetAndAdvance (order : ByteOrder) (str : List UInt8) :
    StringIter → Except Fault (Nat × StringIter) :=
  fixedGetAndAdvance UInt16.toNat 2 (unitsOf order str)

def ucs4IterGetAndAdvance (order : ByteOrder) (str : List UInt8) :
    StringIter → Except Fault (Nat × StringIter) :=
  fixedGetAndAdvance id 4 (codesOf order str)

def fixed8IterSkip : StringIter → Int → StringIter := fixedSkip 1

def ucs2IterSkip : StringIter → Int → StringIter := fixedSkip 2

def ucs4IterSkip : StringIter → Int → StringIter := fixedSkip 4

def iterGetAndAdvanceOf (order : ByteOrder) (str : ParrotString) (i : StringIter) :
    Except Fault (Nat × StringIter) :=
  match str.encoding with
  | .ascii | .latin1 | .binary => fixed8IterGetAndAdvance str.bytes i
  | .utf8 => utf8IterGetAndAdvance str.bytes i
  | .utf16 => utf16IterGetAndAdvance order str.bytes i
  | .ucs2 => ucs2IterGetAndAdvance order str.bytes i
  | .ucs4 => ucs4IterGetAndAdvance order str.bytes i

def iterSkipOf (order : ByteOrder) (str : ParrotString) (i : StringIter) (skip : Int) :
    Except Fault StringIter :=
  match str.encoding with
  | .ascii | .latin1 | .binary => .ok (fixed8IterSkip i skip)
  | .utf8 => utf8IterSkip str.bytes i skip
  | .utf16 => utf16IterSkip order str.bytes i skip
  | .ucs2 => .ok (ucs2IterSkip i skip)
  | .ucs4 => .ok (ucs4IterSkip i skip)

def ucs2CheckCodepoint (c : Nat) : Except Fault Unit :=
  if isSurrogate c || (0xFDD0 ≤ c && c ≤ 0xFDEF) || 0xFFFE ≤ c then
    .error (.thrown .invalidCharacter "Invalid character in UCS-2 string\n")
  else .ok ()

/-- Storing bytes through a pointer into allocated storage. -/
def writeAt (memory : List UInt8) (position : Nat) (word : List UInt8) :
    Except Fault (List UInt8) :=
  if position + word.length ≤ memory.length then
    .ok (memory.take position ++ word ++ memory.drop (position + word.length))
  else .error (.outside position)

/-- What an encoding stores for a code point. -/
def encodeAs (order : ByteOrder) (encoding : Encoding) (c : Nat) : Except Fault (List UInt8) :=
  match encoding with
  | .ascii | .latin1 | .binary =>
    let limit := if encoding = .ascii then 0x80 else 0x100
    if limit ≤ c then
      .error (.thrown .lossyConversion "Lossy conversion to single byte encoding")
    else .ok [UInt8.ofNat c]
  | .utf8 => utf8Encode c
  | .utf16 => (utf16Encode c).map (bytesOf order)
  | .ucs2 => do
    ucs2CheckCodepoint c
    .ok (order.split (UInt16.ofNat c))
  | .ucs4 =>
    if isInvalid c then
      .error (.thrown .invalidCharacter "Invalid character in UCS-4 string\n")
    else .ok (order.split4 c)

/-- By the character position if of fixed width, by the byte position otherwise. -/
def Encoding.storePosition (encoding : Encoding) (i : StringIter) : Nat :=
  match encoding with
  | .ascii | .latin1 | .binary => i.charpos
  | .utf8 | .utf16 => i.bytepos
  | .ucs2 => 2 * i.charpos
  | .ucs4 => 4 * i.charpos

def iterSetAndAdvanceOf (order : ByteOrder) (encoding : Encoding) (memory : List UInt8)
    (i : StringIter) (c : Nat) : Except Fault (List UInt8 × StringIter) := do
  let word ← encodeAs order encoding c
  let memory ← writeAt memory (encoding.storePosition i) word
  .ok (memory, ⟨i.bytepos + word.length, i.charpos + 1⟩)

def Encoding.Holds : Encoding → Nat → Prop
  | .ascii, c => c < 0x80
  | .latin1, c => c < 0x100
  | .binary, c => c < 0x100
  | .utf8, c => IsCharacter c
  | .utf16, c => IsCharacter c
  | .ucs2, c => IsCharacter c ∧ c < 0x10000
  | .ucs4, c => IsCharacter c

/-- The bytes of a code point in an encoding. -/
def Encoding.spell (order : ByteOrder) : Encoding → Nat → List UInt8
  | .ascii, c => [UInt8.ofNat c]
  | .latin1, c => [UInt8.ofNat c]
  | .binary, c => [UInt8.ofNat c]
  | .utf8, c => utf8Word c
  | .utf16, c => bytesOf order (utf16Word c)
  | .ucs2, c => order.split (UInt16.ofNat c)
  | .ucs4, c => order.split4 c

section
variable (order : ByteOrder) (c : Nat) (cs : List Nat)
include order

theorem length_split (unit : UInt16) : (order.split unit).length = 2 := by
  cases order <;> rfl

theorem length_split4 : (order.split4 c).length = 4 := by
  cases order with
  | little => exact length_toBytes 4 c
  | big => rw [ByteOrder.split4, length_reverse, length_toBytes]

theorem length_spell_ucs2 : (Encoding.ucs2.spell order c).length = 2 := length_split order _

theorem length_spell_ucs4 : (Encoding.ucs4.spell order c).length = 4 := length_split4 order c

theorem Encoding.spell_ne_nil (encoding : Encoding) (c : Nat) : encoding.spell order c ≠ [] := by
  apply ne_nil_of_length_pos
  cases encoding with
  | ascii | latin1 | binary => exact one_pos
  | utf8 => exact length_pos_of_ne_nil (utf8Word_ne_nil c)
  | utf16 =>
    have nonempty := length_pos_of_ne_nil (utf16Word_ne_nil c)
    rw [spell, length_bytesOf]
    omega
  | ucs2 =>
    rw [spell, length_split]
    exact two_pos
  | ucs4 =>
    rw [spell, length_split4]
    exact succ_pos 3

/-- The code of an encoding, in bytes. -/
def codeOf (order : ByteOrder) (encoding : Encoding) : WordCode Nat UInt8 where
  Valid := encoding.Holds
  spell := encoding.spell order
  spell_ne_nil := fun _ => encoding.spell_ne_nil order _

/-- The hash value of code points: what every `hash` function of the vtables adds up. -/
def hashOf (seed : UInt64) (cs : List Nat) : UInt64 :=
  cs.foldl (fun hashval c => hashval + (hashval <<< 5) + UInt64.ofNat c) seed

/-- It holds these code points; a cached hash value is for the interpreter's seed. -/
structure Spells (order : ByteOrder) (seed : UInt64) (str : ParrotString) (cs : List Nat) :
    Prop where
  holds : (codeOf order str.encoding).AllValid cs
  bytes : str.bytes = (codeOf order str.encoding).text cs
  strlen : str.strlen = cs.length
  cached : str.hashval = 0 ∨ str.hashval = hashOf seed cs

/-- Strings as the virtual machine keeps them, with their code points. -/
structure Str (order : ByteOrder) (seed : UInt64) where
  header : ParrotString
  codePoints : List Nat
  spells : Spells order seed header codePoints

theorem text_utf16 : (codeOf order .utf16).text cs = bytesOf order (utf16Code.text cs) := by
  rw [WordCode.text, WordCode.text, bytesOf, flatMap_assoc]
  rfl

theorem text_bytes {encoding : Encoding} (single : encoding.maxBytesPerCodepoint = 1)
    (cs : List Nat) : (codeOf order encoding).text cs = cs.map UInt8.ofNat := by
  rw [map_eq_flatMap]
  cases encoding <;> first | rfl | cases single

theorem text_ucs2 : (codeOf order .ucs2).text cs = bytesOf order (cs.map UInt16.ofNat) := by
  rw [bytesOf, flatMap_map]
  rfl

theorem codesOf_split4 {c : Nat} (bound : c < 0x100000000) (rest : List UInt8) :
    codesOf order (order.split4 c ++ rest) = c :: codesOf order rest := by
  have value : ofBytes (toBytes 4 c) = c := by
    rw [ofBytes_toBytes]
    exact mod_eq_of_lt bound
  cases order with
  | little => exact congrArg (· :: codesOf .little rest) value
  | big => exact congrArg (· :: codesOf .big rest) value

theorem codesOf_text {cs : List Nat} (valid : (codeOf order .ucs4).AllValid cs) :
    codesOf order ((codeOf order .ucs4).text cs) = cs := by
  induction cs with
  | nil => rfl
  | cons c cs ih =>
    have character : IsCharacter c := valid c mem_cons_self
    have bound := character.2.2.2
    rw [WordCode.text_cons]
    change codesOf order (order.split4 c ++ _) = _
    rw [codesOf_split4 order (by omega), ih valid.tail]

end

variable {encoding : Encoding} {order : ByteOrder} {width k c : Nat}

theorem boundary_fixed {order : ByteOrder} {encoding : Encoding} {width : Nat}
    (fixed : ∀ c, (encoding.spell order c).length = width) (cs : List Nat) {k : Nat}
    (inside : k ≤ cs.length) : (codeOf order encoding).boundary cs k = k * width := by
  induction k with
  | zero => rw [WordCode.boundary_zero, Nat.zero_mul]
  | succ k ih =>
    rw [WordCode.boundary_succ inside, ih (le_of_succ_le inside), succ_mul]
    exact congrArg (k * width + ·) (fixed _)

theorem boundary_utf16 (order : ByteOrder) (cs : List Nat) (k : Nat) :
    (codeOf order .utf16).boundary cs k = 2 * utf16Code.boundary cs k := by
  rw [WordCode.boundary, text_utf16, length_bytesOf]
  rfl

/-- The iterator before code point number `k`. -/
def stringIterAt (order : ByteOrder) (encoding : Encoding) (cs : List Nat) (k : Nat) :
    StringIter := ⟨(codeOf order encoding).boundary cs k, k⟩

variable {cs : List Nat}

theorem read_of_map {U : Type} {toNat : U → Nat} {units : List U} {k : Nat}
    (same : (units[k]?).map toNat = cs[k]?) (inside : k < cs.length) :
    ∃ unit, read units k = .ok unit ∧ toNat unit = cs[k] := by
  rw [getElem?_eq_getElem inside] at same
  obtain ⟨unit, found, value⟩ := Option.map_eq_some_iff.mp same
  exact ⟨unit, by rw [read, found], value⟩

theorem fixedGetAndAdvance_at {U : Type} {toNat : U → Nat} {units : List U}
    (fixed : ∀ c, (encoding.spell order c).length = width)
    (same : ∀ k : Nat, (units[k]?).map toNat = cs[k]?) (inside : k < cs.length) :
    fixedGetAndAdvance toNat width units (stringIterAt order encoding cs k) =
      .ok (cs[k], stringIterAt order encoding cs (k + 1)) := by
  obtain ⟨unit, taken, value⟩ := read_of_map (same k) inside
  rw [fixedGetAndAdvance, stringIterAt, taken, Except.ok_bind, value, stringIterAt,
    boundary_fixed fixed cs inside.le, boundary_fixed fixed cs inside, succ_mul]

theorem fixedSkip_at (fixed : ∀ c, (encoding.spell order c).length = width) {skip : Int}
    (low : 0 ≤ k + skip) (here : k ≤ cs.length) (high : k + skip ≤ cs.length) :
    fixedSkip width (stringIterAt order encoding cs k) skip =
      stringIterAt order encoding cs (k + skip).toNat := by
  have arrived : (k + skip).toNat ≤ cs.length := by omega
  have bytes : ((k * width : Nat) + skip * width : Int).toNat = (k + skip).toNat * width := by
    have whole : ((k * width : Nat) + skip * width : Int) = (((k + skip).toNat * width : Nat)) := by
      rw [cast_mul, cast_mul, Int.toNat_of_nonneg low, add_mul]
    rw [whole, Int.toNat_natCast]
  rw [stringIterAt, stringIterAt, fixedSkip, boundary_fixed fixed cs here,
    boundary_fixed fixed cs arrived, bytes]

theorem map_bytes (bound : ∀ c ∈ cs, c < 256) (k : Nat) :
    ((cs.map UInt8.ofNat)[k]?).map UInt8.toNat = cs[k]? := by
  rw [getElem?_map, Option.map_map]
  cases found : cs[k]? with
  | none => rfl
  | some c => exact congrArg some (toNat_ofNat_of_lt (bound c (mem_of_getElem? found)))

theorem map_ucs2 (bound : ∀ c ∈ cs, c < 65536) (k : Nat) :
    ((cs.map UInt16.ofNat)[k]?).map UInt16.toNat = cs[k]? := by
  rw [getElem?_map, Option.map_map]
  cases found : cs[k]? with
  | none => rfl
  | some c => exact congrArg some (toNat_ofNat16_of_lt (bound c (mem_of_getElem? found)))

theorem storePosition_at (order : ByteOrder) (encoding : Encoding)
    (here : k ≤ cs.length) : encoding.storePosition (stringIterAt order encoding cs k) =
      (codeOf order encoding).boundary cs k := by
  cases encoding with
  | ascii => rw [@boundary_fixed order .ascii 1 (fun _ => rfl) cs k here, mul_one]; rfl
  | latin1 => rw [@boundary_fixed order .latin1 1 (fun _ => rfl) cs k here, mul_one]; rfl
  | binary => rw [@boundary_fixed order .binary 1 (fun _ => rfl) cs k here, mul_one]; rfl
  | utf8 | utf16 => rfl
  | ucs2 => rw [boundary_fixed (length_spell_ucs2 order) cs here, mul_comm]; rfl
  | ucs4 => rw [boundary_fixed (length_spell_ucs4 order) cs here, mul_comm]; rfl

section

variable {order : ByteOrder} {seed : UInt64} {str : ParrotString} {cs : List Nat}

theorem Spells.single (spells : Spells order seed str cs)
    (single : str.encoding.maxBytesPerCodepoint = 1) :
    str.bytes = cs.map UInt8.ofNat ∧ ∀ c ∈ cs, c < 256 := by
  constructor
  · rw [spells.bytes, text_bytes order single]
  intro c member
  have holds : str.encoding.Holds c := spells.holds c member
  cases encoding : str.encoding with
  | ascii =>
    rw [encoding] at holds
    exact lt_trans holds (by decide)
  | latin1 | binary =>
    rw [encoding] at holds
    exact holds
  | utf8 | utf16 | ucs2 | ucs4 => rw [encoding] at single; cases single

theorem iterGetAndAdvanceOf_at (spells : Spells order seed str cs) (inside : k < cs.length) :
    iterGetAndAdvanceOf order str (stringIterAt order str.encoding cs k) =
      .ok (cs[k], stringIterAt order str.encoding cs (k + 1)) := by
  have holds := spells.holds
  have bytes := spells.bytes
  have single := spells.single
  unfold iterGetAndAdvanceOf
  cases encoding : str.encoding with
  | ascii | latin1 | binary =>
    rw [encoding] at single
    obtain ⟨bytes, bound⟩ := single rfl
    simp only [bytes]
    exact fixedGetAndAdvance_at (fun _ => rfl) (map_bytes bound) inside
  | utf8 =>
    rw [encoding] at bytes holds
    have moved := iterGetAndAdvance_boundary utf8Cursor one_pos (fun _ _ => rfl)
      (fun byte => (one_mul (utf8Skip byte)).symm) holds inside
    simp only [bytes]
    simp only [iterAt, one_mul] at moved
    exact moved
  | utf16 =>
    rw [encoding, text_utf16] at bytes
    rw [encoding] at holds
    have size_eq : ∀ unit : UInt16,
        (if isHighSurrogate unit.toNat then 4 else 2) = 2 * utf16Skip unit.toNat := by
      intro unit
      unfold utf16Skip
      split <;> rfl
    have moved := iterGetAndAdvance_boundary utf16Cursor two_pos (fun _ _ => rfl) size_eq
      holds inside
    simp only [bytes, utf16IterGetAndAdvance, unitsOf_bytesOf, stringIterAt, boundary_utf16]
    exact moved
  | ucs2 =>
    rw [encoding, text_ucs2] at bytes
    rw [encoding] at holds
    have bound : ∀ c ∈ cs, c < 65536 := fun c member => (holds c member).2
    simp only [bytes, ucs2IterGetAndAdvance, unitsOf_bytesOf]
    exact fixedGetAndAdvance_at (length_spell_ucs2 order) (map_ucs2 bound) inside
  | ucs4 =>
    rw [encoding] at bytes holds
    simp only [bytes, ucs4IterGetAndAdvance, codesOf_text order holds]
    exact fixedGetAndAdvance_at (length_spell_ucs4 order) (fun _ => Option.map_id_apply) inside

theorem iterSkipOf_at (spells : Spells order seed str cs) {k : Nat} {skip : Int}
    (low : 0 ≤ k + skip) (here : k ≤ cs.length) (high : k + skip ≤ cs.length) :
    iterSkipOf order str (stringIterAt order str.encoding cs k) skip =
      .ok (stringIterAt order str.encoding cs (k + skip).toNat) := by
  have holds := spells.holds
  have bytes := spells.bytes
  unfold iterSkipOf
  cases encoding : str.encoding with
  | ascii | latin1 | binary => exact congrArg Except.ok (fixedSkip_at (fun _ => rfl) low here high)
  | utf8 =>
    rw [encoding] at bytes holds
    have moved := iterSkip_boundary utf8Cursor one_pos holds low here high
    simp only [bytes]
    simp only [iterAt, one_mul] at moved
    exact moved
  | utf16 =>
    rw [encoding, text_utf16] at bytes
    rw [encoding] at holds
    have moved := iterSkip_boundary utf16Cursor two_pos holds low here high
    simp only [bytes, utf16IterSkip, unitsOf_bytesOf, stringIterAt, boundary_utf16]
    exact moved
  | ucs2 =>
    exact congrArg Except.ok (fixedSkip_at (length_spell_ucs2 order) low here high)
  | ucs4 =>
    exact congrArg Except.ok (fixedSkip_at (length_spell_ucs4 order) low here high)

end

theorem ucs2CheckCodepoint_eq_ok_iff :
    ucs2CheckCodepoint c = .ok () ↔ IsCharacter c ∧ c < 0x10000 := by
  have rejected : (isSurrogate c || (0xFDD0 ≤ c && c ≤ 0xFDEF) || 0xFFFE ≤ c) = true ↔
      ¬(IsCharacter c ∧ c < 0x10000) := by
    unfold IsCharacter
    simp only [Bool.or_eq_true, isSurrogate_iff, Bool.and_eq_true, decide_eq_true_eq]
    omega
  unfold ucs2CheckCodepoint
  by_cases valid : IsCharacter c ∧ c < 0x10000
  · rw [if_neg (fun bad => rejected.mp bad valid)]
    exact ⟨fun _ => valid, fun _ => rfl⟩
  rw [if_pos (rejected.mpr valid)]
  constructor
  · nofun
  · exact fun accepted => absurd accepted valid

theorem encodeAs_eq_ok_iff (order : ByteOrder) (encoding : Encoding)
    {word : List UInt8} : encodeAs order encoding c = .ok word ↔
      encoding.Holds c ∧ word = encoding.spell order c := by
  have single : ∀ limit : Nat, (if limit ≤ c then
        Except.error (Fault.thrown .lossyConversion "Lossy conversion to single byte encoding")
      else .ok [UInt8.ofNat c]) = .ok word ↔ c < limit ∧ word = [UInt8.ofNat c] := by
    intro limit
    by_cases beyond : limit ≤ c
    · simp [beyond, beyond.not_gt]
    · simp [beyond, Nat.lt_of_not_le beyond, eq_comm]
  cases encoding with
  | ascii => exact single 0x80
  | latin1 | binary => exact single 0x100
  | utf8 =>
    change utf8Encode c = _ ↔ IsCharacter c ∧ word = utf8Word c
    by_cases valid : IsCharacter c
    · simp [utf8Encode_eq valid, valid, eq_comm]
    · simp [utf8Encode_throws valid, valid]
  | utf16 =>
    change (utf16Encode c).map (bytesOf order) = _ ↔
      IsCharacter c ∧ word = bytesOf order (utf16Word c)
    by_cases valid : IsCharacter c
    · simp [utf16Encode_eq valid, valid, eq_comm, Except.map]
    · simp [utf16Encode_throws valid, valid, Except.map]
  | ucs2 =>
    change (ucs2CheckCodepoint c >>= fun _ => _) = _ ↔
      (IsCharacter c ∧ c < 0x10000) ∧ word = order.split (UInt16.ofNat c)
    rw [Except.bind_eq_ok_iff]
    constructor
    · rintro ⟨⟨⟩, checked, stored⟩
      exact ⟨ucs2CheckCodepoint_eq_ok_iff.mp checked, (Except.ok.inj stored).symm⟩
    · rintro ⟨valid, rfl⟩
      exact ⟨(), ucs2CheckCodepoint_eq_ok_iff.mpr valid, rfl⟩
  | ucs4 =>
    change (if isInvalid c = true then _ else _) = _ ↔ IsCharacter c ∧ word = order.split4 c
    rw [← isInvalid_eq_false_iff]
    cases isInvalid c <;> simp [eq_comm]

theorem encodeAs_inside (order : ByteOrder) (encoding : Encoding) (c position : Nat) :
    encodeAs order encoding c ≠ .error (.outside position) := by
  have single : ∀ limit : Nat, (if limit ≤ c then
        Except.error (Fault.thrown .lossyConversion "Lossy conversion to single byte encoding")
      else .ok [UInt8.ofNat c]) ≠ .error (.outside position) := by
    intro limit
    split <;> simp
  cases encoding with
  | ascii => exact single 0x80
  | latin1 | binary => exact single 0x100
  | utf8 =>
    change utf8Encode c ≠ _
    by_cases valid : IsCharacter c
    · simp [utf8Encode_eq valid]
    · simp [utf8Encode_throws valid]
  | utf16 =>
    change (utf16Encode c).map (bytesOf order) ≠ _
    by_cases valid : IsCharacter c
    · simp [utf16Encode_eq valid, Except.map]
    · simp [utf16Encode_throws valid, Except.map]
  | ucs2 =>
    change (ucs2CheckCodepoint c >>= fun _ => _) ≠ _
    unfold ucs2CheckCodepoint
    split <;> simp
  | ucs4 =>
    change (if isInvalid c = true then _ else _) ≠ _
    split <;> simp

end RakudoStar.Strings
