import RakudoStar.Strings.Vtable

/-!
# Packfile items

`pf_items.c` stores integers, numbers, strings and buffers as opcodes of eight bytes. What is
stored is fetched again, with the cursor behind it.
-/

namespace RakudoStar.Packfile

open Foundation List

/-- What may go wrong when an image is read. -/
inductive Fault where
  | exception (message : String)
  /-- Memory outside the image or outside a table is read. -/
  | outside
  deriving DecidableEq, Repr

/-- `opcode_t`, `INTVAL` and `UINTVAL`. -/
abbrev Word := BitVec 64

/-- The bits of a `FLOATVAL`. -/
abbrev FloatVal := BitVec 64

def wordsize : Nat := 8

def roundUpB (size : Nat) : Nat :=
  (size + wordsize - 1) / wordsize * wordsize

/-- `PF_store_opcode`, `PF_store_integer` and, for the bits of a float,
`PF_store_number`. -/
def storeOpcode (value : Word) : List UInt8 :=
  toBytes wordsize value.toNat

/-- `PF_fetch_opcode`, `PF_fetch_integer` and `PF_fetch_number`. -/
def fetchOpcode (image : List UInt8) : Except Fault (Word × List UInt8) :=
  if image.length < wordsize then
    .error .outside
  else
    .ok (BitVec.ofNat 64 (ofBytes (image.take wordsize)), image.drop wordsize)

@[simp]
theorem length_storeOpcode (value : Word) : (storeOpcode value).length = wordsize :=
  length_toBytes _ _

@[simp]
theorem fetchOpcode_store (value : Word) (rest : List UInt8) :
    fetchOpcode (storeOpcode value ++ rest) = .ok (value, rest) := by
  have enough : ¬(storeOpcode value ++ rest).length < wordsize := by
    rw [length_append, length_storeOpcode]
    exact not_lt.mpr (Nat.le_add_right _ _)
  have read : BitVec.ofNat 64 (ofBytes (storeOpcode value)) = value := by
    have span : byteSpan wordsize = 2 ^ 64 := by decide
    rw [storeOpcode, ofBytes_toBytes, span, Nat.mod_eq_of_lt value.isLt, BitVec.ofNat_toNat,
      BitVec.setWidth_eq]
  rw [fetchOpcode, if_neg enough, take_left' (length_storeOpcode value),
    drop_left' (length_storeOpcode value), read]

/-- A string: its encoding, two of its flags and its bytes. -/
structure PStr where
  encoding : Strings.Encoding
  constant : Bool
  private7 : Bool
  bytes : List UInt8
  addressable : bytes.length < 2 ^ 63

/-- The text of a string is what matters of it; the null string has none. -/
def text (s : Option PStr) : Option (Strings.Encoding × List UInt8) :=
  s.map fun s => (s.encoding, s.bytes)

/-- `num` of an encoding, by the order of registration. -/
def encodingNum : Strings.Encoding → Nat
  | .ascii => 0
  | .latin1 => 1
  | .binary => 2
  | .utf8 => 3
  | .utf16 => 4
  | .ucs2 => 5
  | .ucs4 => 6

def getEncoding : Nat → Option Strings.Encoding
  | 0 => some .ascii
  | 1 => some .latin1
  | 2 => some .binary
  | 3 => some .utf8
  | 4 => some .utf16
  | 5 => some .ucs2
  | 6 => some .ucs4
  | _ => none

def flagWord (encoding : Strings.Encoding) (constant private7 : Bool) : Word :=
  (BitVec.ofNat 64 (encodingNum encoding) <<< 8) |||
    ((if constant then 1 else 0) ||| if private7 then 2 else 0)

def emptyConstant : PStr where
  encoding := .ascii
  constant := true
  private7 := false
  bytes := []
  addressable := by decide

/-- Zeros up to the next opcode. -/
def padding (size : Nat) : List UInt8 :=
  List.replicate (roundUpB size - size) 0

def storeString : Option PStr → List UInt8
  | none => storeOpcode (-1)
  | some s =>
    storeOpcode (flagWord s.encoding s.constant s.private7) ++
      storeOpcode (BitVec.ofNat 64 s.bytes.length) ++ s.bytes ++ padding s.bytes.length

def fetchString (image : List UInt8) : Except Fault (Option PStr × List UInt8) := do
  let (flags, image) ← fetchOpcode image
  if flags = -1 then
    .ok (none, image)
  else
    let encodingNr := (flags >>> 8 &&& 0xff).toNat
    let (size, image) ← fetchOpcode image
    match getEncoding encodingNr with
    | none => .error (.exception s!"Invalid encoding number '{encodingNr}' specified")
    | some encoding =>
      if image.length < roundUpB size.toNat then
        .error .outside
      else if held : (image.take size.toNat).length < 2 ^ 63 then
        let s : PStr :=
          if size ≠ 0 ∨ encoding ≠ emptyConstant.encoding then
            { encoding
              constant := flags.getLsbD 0
              private7 := flags.getLsbD 1
              bytes := image.take size.toNat
              addressable := held }
          else
            emptyConstant
        .ok (some s, image.drop (roundUpB size.toNat))
      else
        .error .outside

/-- `PF_size_strlen`, in opcodes. -/
def sizeStrlen (len : Nat) : Nat :=
  2 + roundUpB len / wordsize

def sizeString : Option PStr → Nat
  | none => 1
  | some s => sizeStrlen s.bytes.length

theorem flagWord_decodes (encoding : Strings.Encoding) (constant private7 : Bool) :
    flagWord encoding constant private7 ≠ -1 ∧
      getEncoding (flagWord encoding constant private7 >>> 8 &&& 0xff).toNat = some encoding ∧
      (flagWord encoding constant private7).getLsbD 0 = constant ∧
      (flagWord encoding constant private7).getLsbD 1 = private7 := by
  cases encoding <;> cases constant <;> cases private7 <;> decide

theorem roundUpB_ge (size : Nat) : size ≤ roundUpB size := by
  unfold roundUpB wordsize
  omega

theorem wordsize_dvd_roundUpB (size : Nat) :
    roundUpB size / wordsize * wordsize = roundUpB size := by
  unfold roundUpB wordsize
  omega

theorem length_padded (bytes : List UInt8) :
    (bytes ++ padding bytes.length).length = roundUpB bytes.length := by
  rw [length_append, padding, length_replicate]
  exact Nat.add_sub_cancel' (roundUpB_ge _)

variable (s : Option PStr)

theorem length_storeString : (storeString s).length = sizeString s * wordsize := by
  cases s with
  | none => rw [storeString, length_storeOpcode, sizeString, one_mul]
  | some s =>
    rw [storeString, append_assoc, length_append, length_padded, length_append,
      length_storeOpcode, length_storeOpcode, sizeString, sizeStrlen, add_mul,
      wordsize_dvd_roundUpB]
    omega

theorem fetchString_store (rest : List UInt8) :
    ∃ fetched, fetchString (storeString s ++ rest) = .ok (fetched, rest) ∧
      text fetched = text s := by
  cases s with
  | none =>
    refine ⟨none, ?_, rfl⟩
    rw [storeString, fetchString, fetchOpcode_store, Except.ok_bind]
    rfl
  | some s =>
    rcases flagWord_decodes s.encoding s.constant s.private7 with
      ⟨notNull, encoding, constant, private7⟩
    have size : (BitVec.ofNat 64 s.bytes.length).toNat = s.bytes.length := by
      rw [BitVec.toNat_ofNat]
      exact Nat.mod_eq_of_lt (lt_trans s.addressable (by decide))
    have enough : ¬(s.bytes ++ padding s.bytes.length ++ rest).length <
        roundUpB s.bytes.length := by
      rw [length_append, length_padded]
      exact not_lt.mpr (Nat.le_add_right _ _)
    have taken : (s.bytes ++ padding s.bytes.length ++ rest).take s.bytes.length = s.bytes := by
      rw [append_assoc, take_left' rfl]
    have dropped : (s.bytes ++ padding s.bytes.length ++ rest).drop (roundUpB s.bytes.length) =
        rest := drop_left' (length_padded _)
    have shape : storeString (some s) ++ rest =
        storeOpcode (flagWord s.encoding s.constant s.private7) ++
          (storeOpcode (BitVec.ofNat 64 s.bytes.length) ++
            (s.bytes ++ padding s.bytes.length ++ rest)) := by
      simp only [storeString, append_assoc]
    rw [shape, fetchString, fetchOpcode_store, Except.ok_bind]
    simp only [notNull, if_false, fetchOpcode_store, Except.ok_bind, encoding, size, enough, taken,
      dropped, s.addressable, dif_pos, constant, private7]
    refine ⟨_, rfl, ?_⟩
    split
    · rfl
    case isFalse empty =>
      rw [not_or, not_not, not_not] at empty
      have noBytes : s.bytes = [] := by
        rw [← length_eq_zero_iff, ← size, empty.1]
        rfl
      simp [text, emptyConstant, noBytes, empty.2]

def storeBuf (bytes : List UInt8) : List UInt8 :=
  storeOpcode (BitVec.ofNat 64 bytes.length) ++ bytes ++ padding bytes.length

def fetchBuf (image : List UInt8) : Except Fault (List UInt8 × List UInt8) := do
  let (size, image) ← fetchOpcode image
  if image.length < roundUpB size.toNat then
    .error .outside
  else
    .ok (image.take size.toNat, image.drop (roundUpB size.toNat))

theorem length_storeBuf (bytes : List UInt8) :
    (storeBuf bytes).length = (sizeStrlen bytes.length - 1) * wordsize := by
  have less : ∀ opcodes : Nat, 2 + opcodes - 1 = 1 + opcodes := by
    intro opcodes
    omega
  rw [storeBuf, append_assoc, length_append, length_padded, length_storeOpcode,
    sizeStrlen, less, add_mul, wordsize_dvd_roundUpB, one_mul]

theorem fetchBuf_store (bytes rest : List UInt8) (addressable : bytes.length < 2 ^ 64) :
    fetchBuf (storeBuf bytes ++ rest) = .ok (bytes, rest) := by
  have size : (BitVec.ofNat 64 bytes.length).toNat = bytes.length := by
    rw [BitVec.toNat_ofNat]
    exact Nat.mod_eq_of_lt addressable
  have enough : ¬(bytes ++ padding bytes.length ++ rest).length < roundUpB bytes.length := by
    rw [length_append, length_padded]
    exact not_lt.mpr (Nat.le_add_right _ _)
  rw [storeBuf, append_assoc, append_assoc, ← append_assoc bytes, fetchBuf,
    fetchOpcode_store, Except.ok_bind]
  simp only [size, enough, if_false]
  rw [append_assoc, take_left' rfl, ← append_assoc, drop_left' (length_padded _)]

end RakudoStar.Packfile
