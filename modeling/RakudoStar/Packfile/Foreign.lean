import RakudoStar.Packfile.Items
import RakudoStar.Strings.Spelling
import Mathlib.Algebra.BigOperators.Ring.List

/-!
# Items between machines

`pf_items.c` on machines of either byte order with words of four or eight bytes. A packfile
notes the machine that wrote it; its words are transformed when they are fetched on another.
-/

namespace RakudoStar.Packfile

open Foundation Strings List RakudoStar.Except Int

/-- What a header notes of the machine: `byteorder` and `wordsize`, 4 or 8. -/
structure Machine where
  order : ByteOrder
  wide : Bool

namespace Machine

variable (m host file : Machine)

/-- `sizeof (opcode_t)`, which `sizeof (INTVAL)` is, too. -/
def opcodeSize : Nat :=
  if m.wide then 8 else 4

/-- The conversion to `opcode_t`, which is signed. -/
def cast (value : Int) : Int :=
  value.bmod (byteSpan m.opcodeSize)

/-- The value is one of `opcode_t`. -/
def Holds (value : Int) : Prop := m.cast value = value

/-- The bytes of an integer from the low one on, in the order of memory, and back. -/
def arrange (bytes : List UInt8) : List UInt8 :=
  match m.order with
  | .little => bytes
  | .big => bytes.reverse

/-- `ROUND_UP`, in opcodes. -/
def roundUp (size : Nat) : Nat :=
  (size + m.opcodeSize - 1) / m.opcodeSize

/-- Zeros up to the next opcode. -/
def padding (size : Nat) : List UInt8 :=
  List.replicate (m.roundUp size * m.opcodeSize - size) 0

/-- `PF_store_opcode` and `PF_store_integer`. -/
def storeOpcode (value : Int) : List UInt8 :=
  m.arrange (signedToBytes m.opcodeSize value)

/-- `PF_store_buf`, of a buffer that is not null. -/
def storeBuf (s : List UInt8) : List UInt8 :=
  m.storeOpcode s.length ++ s ++ m.padding s.length

/-- `PF_size_cstring`, in opcodes. -/
def sizeCstring (s : List UInt8) : Nat :=
  m.roundUp (s.length + 1)

/-- `PF_store_cstring`: zeros, and the characters put over them. -/
def storeCstring (s : List UInt8) : List UInt8 :=
  s ++ List.replicate (m.sizeCstring s * m.opcodeSize - s.length) 0

end Machine

/-- A string of code points that its encoding holds, and the flags that are stored. -/
structure PfString where
  encoding : Encoding
  codePoints : List Nat
  constant : Bool
  private7 : Bool
  holds : ∀ c ∈ codePoints, encoding.Holds c

/-- What stands at `strstart` on a machine. -/
def PfString.bytes (order : ByteOrder) (s : PfString) : List UInt8 :=
  (codeOf order s.encoding).text s.codePoints

namespace Machine

variable (m host file : Machine)

def storeString : Option PfString → List UInt8
  | none => m.storeOpcode (-1)
  | some s =>
    m.storeOpcode (flagWord s.encoding s.constant s.private7).toNat ++
      m.storeOpcode (s.bytes m.order).length ++ s.bytes m.order ++
      m.padding (s.bytes m.order).length

/-- `PF_size_strlen`, in opcodes. -/
def sizeStrlen (len : Nat) : Nat :=
  2 + m.roundUp len

/-- `PF_size_string`, in opcodes. -/
def sizeString : Option PfString → Nat
  | none => 1
  | some s => m.sizeStrlen (s.bytes m.order).length

/-- `PF_size_buf`, of a buffer that is not null, in opcodes. -/
def sizeBuf (s : List UInt8) : Nat :=
  m.sizeStrlen s.length - 1

/-- An `opcode_t` in memory. -/
def value (bytes : List UInt8) : Int :=
  signedOfBytes m.opcodeSize (m.arrange bytes)

/-- The `fetch_buf` functions. -/
def fetchBytes (b : List UInt8) : List UInt8 :=
  match file.order, host.order with
  | .little, .little => b
  | .big, .big => b
  | _, _ => b.reverse

/-- `fetch_op_le_4` and `fetch_op_be_4`: what is read is a `Parrot_Int4`. -/
def fetchOp4 (b : List UInt8) : Int :=
  signedOfBytes 4 (host.arrange (host.fetchBytes file b))

/-- `fetch_op_le_8` and `fetch_op_be_8`. -/
def fetchOp8 (b : List UInt8) : Int :=
  let buf := host.fetchBytes file b
  match host.wide, host.order with
  | true, _ => host.value buf
  | false, .little => host.value (buf.take 4)
  | false, .big => host.value (buf.drop 4)

/-- The function that `PackFile_assign_transforms` chooses. -/
def fetchOp (b : List UInt8) : Int :=
  if file.wide then host.fetchOp8 file b else host.fetchOp4 file b

end Machine

/-- The machine that reads, and the header of the packfile, where there is one. -/
structure Fetcher where
  host : Machine
  pf : Option Machine

namespace Fetcher

variable (r : Fetcher)

/-- The machine whose words are read. -/
def header : Machine :=
  r.pf.getD r.host

/-- `PF_fetch_opcode` and `PF_fetch_integer`. -/
def fetchOpcode (image : List UInt8) : Except Fault (Int × List UInt8) :=
  let size := r.header.opcodeSize
  if image.length < size then .error .outside
  else
    let value := match r.pf with
      | none => r.host.value (image.take size)
      | some file => r.host.fetchOp file (image.take size)
    .ok (value, image.drop size)

/-- The bytes at the cursor, which then moves to the next opcode. -/
def take (size : Nat) (image : List UInt8) : Except Fault (List UInt8 × List UInt8) :=
  let padded := r.header.roundUp size * r.header.opcodeSize
  if image.length < padded then .error .outside else .ok (image.take size, image.drop padded)

/-- The conversion to `size_t`. -/
def toSize (value : Int) : Nat :=
  (value % byteSpan r.host.opcodeSize).toNat

def fetchBuf (image : List UInt8) : Except Fault (List UInt8 × List UInt8) := do
  let (size, image) ← r.fetchOpcode image
  r.take (r.toSize size) image

def fetchCstring (image : List UInt8) : Except Fault (List UInt8 × List UInt8) := do
  let s := image.takeWhile (· ≠ 0)
  let (_, rest) ← r.take (s.length + 1) image
  .ok (s, rest)

/-- `Parrot_str_new_init`: the bytes are copied and scanned, if there are any. -/
def newString (encoding : Encoding) (bytes : List UInt8) : Except Fault ParrotString :=
  if bytes = [] then .ok ⟨encoding, [], 0, 0⟩
  else
    match stringScan r.host.order encoding bytes with
    | .ok strlen => .ok ⟨encoding, bytes, strlen, 0⟩
    | .error (.thrown _ message) => .error (.exception message)
    | .error (.outside _) => .error .outside

/-- `PF_fetch_string`, with the flags of the new string. -/
def fetchString (image : List UInt8) :
    Except Fault (Option (ParrotString × Bool × Bool) × List UInt8) := do
  let (word, image) ← r.fetchOpcode image
  if word = -1 then .ok (none, image)
  else
    let flags := BitVec.ofInt 64 word
    let (size, image) ← r.fetchOpcode image
    let encodingNr := (flags >>> 8 &&& 0xff).toNat
    match getEncoding encodingNr with
    | none => .error (.exception s!"Invalid encoding number '{encodingNr}' specified")
    | some encoding => do
      let (bytes, image) ← r.take (r.toSize size) image
      -- CONST_STRING(interp, "")
      if bytes = [] ∧ encoding = .ascii then .ok (some (⟨.ascii, [], 0, 0⟩, true, false), image)
      else
        let s ← r.newString encoding bytes
        .ok (some (s, flags.getLsbD 0, flags.getLsbD 1), image)

end Fetcher

inductive Item
  | opcode (value : Int)
  | integer (value : Int)
  | buf (s : List UInt8)
  | cstring (s : List UInt8)
  | string (s : Option PfString)

inductive Kind
  | opcode
  | integer
  | buf
  | cstring
  | string

/-- What is fetched, the flags of strings apart. -/
inductive Fetched
  | opcode (value : Int)
  | integer (value : Int)
  | buf (s : List UInt8)
  | cstring (s : List UInt8)
  | string (s : Option ParrotString)
  deriving DecidableEq

def Item.kind : Item → Kind
  | .opcode _ => .opcode
  | .integer _ => .integer
  | .buf _ => .buf
  | .cstring _ => .cstring
  | .string _ => .string

/-- An item as a machine of some byte order has it in its memory. -/
def Item.content (order : ByteOrder) : Item → Fetched
  | .opcode value => .opcode value
  | .integer value => .integer value
  | .buf s => .buf s
  | .cstring s => .cstring s
  | .string s => .string (s.map fun s => ⟨s.encoding, s.bytes order, s.codePoints.length, 0⟩)

namespace Machine

variable (m : Machine)

def store : Item → List UInt8
  | .opcode value => m.storeOpcode value
  | .integer value => m.storeOpcode value
  | .buf s => m.storeBuf s
  | .cstring s => m.storeCstring s
  | .string s => m.storeString s

/-- The `PF_size` functions. -/
def size : Item → Nat
  | .opcode _ => 1
  | .integer _ => 1
  | .buf s => m.sizeBuf s
  | .cstring s => m.sizeCstring s
  | .string s => m.sizeString s

end Machine

/-- The `PF_fetch` function for a kind. -/
def Fetcher.fetch (r : Fetcher) (image : List UInt8) : Kind → Except Fault (Fetched × List UInt8)
  | .opcode => (r.fetchOpcode image).map (Prod.map .opcode id)
  | .integer => (r.fetchOpcode image).map (Prod.map .integer id)
  | .buf => (r.fetchBuf image).map (Prod.map .buf id)
  | .cstring => (r.fetchCstring image).map (Prod.map .cstring id)
  | .string => (r.fetchString image).map (Prod.map (fun s => .string (s.map Prod.fst)) id)

def Fetcher.fetchAll (r : Fetcher) :
    List Kind → List UInt8 → Except Fault (List Fetched × List UInt8)
  | [], image => .ok ([], image)
  | kind :: kinds, image => do
    let (first, image) ← r.fetch image kind
    let (others, image) ← r.fetchAll kinds image
    .ok (first :: others, image)

theorem toBytes_add (low high value : Nat) :
    toBytes (low + high) value = toBytes low value ++ toBytes high (value / byteSpan low) := by
  induction low generalizing value with
  | zero => rw [Nat.zero_add, byteSpan, Nat.div_one, toBytes, nil_append]
  | succ low ih =>
    rw [Nat.succ_add, toBytes, toBytes, byteSpan, ih, cons_append, Nat.div_div_eq_div_mul]

namespace Machine

variable {m host file : Machine} {value : Int}

theorem arrange_arrange (m : Machine) (bytes : List UInt8) :
    m.arrange (m.arrange bytes) = bytes := by
  unfold arrange
  cases m.order with
  | little => rfl
  | big => exact reverse_reverse bytes

@[simp]
theorem length_arrange (m : Machine) (bytes : List UInt8) :
    (m.arrange bytes).length = bytes.length := by
  unfold arrange
  cases m.order with
  | little => rfl
  | big => exact length_reverse

@[simp]
theorem length_storeOpcode (m : Machine) (value : Int) :
    (m.storeOpcode value).length = m.opcodeSize := by
  rw [storeOpcode, length_arrange, length_signedToBytes]

theorem value_storeOpcode (m : Machine) (value : Int) :
    m.value (m.storeOpcode value) = m.cast value := by
  rw [Machine.value, storeOpcode, arrange_arrange, signedOfBytes_toBytes, cast]

theorem fetchBytes_arrange (host file : Machine) (bytes : List UInt8) :
    host.fetchBytes file (file.arrange bytes) = host.arrange bytes := by
  unfold fetchBytes arrange
  cases file.order <;> cases host.order <;> simp

theorem opcodeSize_pos (m : Machine) : 0 < m.opcodeSize := by
  unfold opcodeSize
  split <;> decide

theorem span_narrow (narrow : m.wide = false) : byteSpan m.opcodeSize = 2 ^ 32 := by
  rw [opcodeSize, narrow]
  decide

theorem span_wide (wide : m.wide = true) : byteSpan m.opcodeSize = 2 ^ 64 := by
  rw [opcodeSize, wide]
  decide

theorem cast_of_narrow (narrow : value.bmod (2 ^ 32) = value) (m : Machine) :
    m.cast value = value := by
  cases size : m.wide with
  | false => rwa [cast, span_narrow size]
  | true =>
    rw [cast, span_wide size]
    have low := @Int.le_bmod value (2 ^ 32) (by decide)
    have high := @bmod_lt value (2 ^ 32) (by decide)
    rw [narrow] at low high
    apply bmod_eq_of_le_mul_two <;> omega

theorem fetchOp4_store (host : Machine) (narrow : file.wide = false) :
    host.fetchOp4 file (file.storeOpcode value) = value.bmod (2 ^ 32) := by
  have size : file.opcodeSize = 4 := by
    rw [opcodeSize, narrow]
    rfl
  rw [fetchOp4, storeOpcode, fetchBytes_arrange, arrange_arrange, size, signedOfBytes_toBytes]
  rfl

theorem fetchOp8_store (host : Machine) (wide : file.wide = true) :
    host.fetchOp8 file (file.storeOpcode value) = host.cast value := by
  have size : file.opcodeSize = 8 := by
    rw [opcodeSize, wide]
    rfl
  have halves : signedToBytes 8 value = toBytes 4 (value % byteSpan 8).toNat ++
      toBytes 4 ((value % byteSpan 8).toNat / byteSpan 4) := toBytes_add 4 4 _
  have low : signedOfBytes 4 (toBytes 4 (value % byteSpan 8).toNat) = value.bmod (byteSpan 4) := by
    have four : byteSpan 4 = 2 ^ 32 := by decide
    have eight : byteSpan 8 = 2 ^ 64 := by decide
    rw [signedOfBytes, ofBytes_toBytes, four, eight, bmod_def, bmod_def]
    omega
  rw [fetchOp8, storeOpcode, fetchBytes_arrange, size]
  rcases host with ⟨order, wide⟩
  cases wide with
  | true =>
    change signedOfBytes 8 (arrange _ (arrange _ _)) = _
    rw [arrange_arrange, signedOfBytes_toBytes]
    rfl
  | false =>
    cases order with
    | little =>
      change signedOfBytes 4 ((signedToBytes 8 value).take 4) = _
      rw [halves, take_left' (length_toBytes 4 _), low]
      rfl
    | big =>
      change signedOfBytes 4 ((signedToBytes 8 value).reverse.drop 4).reverse = _
      rw [halves, reverse_append, drop_left' (by simp), reverse_reverse, low]
      rfl

theorem fetchOp_store (host : Machine) (held : file.Holds value) :
    host.fetchOp file (file.storeOpcode value) = host.cast value := by
  rw [fetchOp]
  cases wide : file.wide with
  | true => exact fetchOp8_store host wide
  | false =>
    rw [Holds, cast, span_narrow wide] at held
    rw [if_neg Bool.false_ne_true, fetchOp4_store host wide, held, cast_of_narrow held]

theorem le_roundUp (m : Machine) (size : Nat) : size ≤ m.roundUp size * m.opcodeSize := by
  have positive := m.opcodeSize_pos
  have whole := Nat.div_add_mod (size + m.opcodeSize - 1) m.opcodeSize
  have small := Nat.mod_lt (size + m.opcodeSize - 1) positive
  rw [mul_comm] at whole
  rw [roundUp]
  omega

theorem length_padded (m : Machine) (bytes : List UInt8) :
    (bytes ++ m.padding bytes.length).length = m.roundUp bytes.length * m.opcodeSize := by
  rw [length_append, padding, length_replicate]
  exact Nat.add_sub_cancel' (m.le_roundUp _)

theorem length_store (m : Machine) (item : Item) :
    (m.store item).length = m.size item * m.opcodeSize := by
  cases item with
  | opcode value | integer value => rw [store, length_storeOpcode, size, one_mul]
  | buf s =>
    have less : 2 + m.roundUp s.length - 1 = 1 + m.roundUp s.length := by omega
    rw [store, storeBuf, append_assoc, length_append, length_padded, length_storeOpcode,
      size, sizeBuf, sizeStrlen, less, add_mul, one_mul]
  | cstring s =>
    have fits := Nat.le_of_succ_le (m.le_roundUp (s.length + 1))
    rw [store, storeCstring, length_append, length_replicate, size]
    exact Nat.add_sub_cancel' fits
  | string s =>
    cases s with
    | none => rw [store, storeString, length_storeOpcode, size, sizeString, one_mul]
    | some s =>
      rw [store, storeString, append_assoc, length_append, length_padded,
        length_append, length_storeOpcode, length_storeOpcode, size, sizeString, sizeStrlen,
        add_mul, two_mul]

end Machine

namespace Fetcher

variable {r : Fetcher} {s : List UInt8}

theorem fetchOpcode_store {value : Int} (held : r.header.Holds value) (rest : List UInt8) :
    r.fetchOpcode (r.header.storeOpcode value ++ rest) = .ok (r.host.cast value, rest) := by
  have length := r.header.length_storeOpcode value
  have enough : ¬(r.header.storeOpcode value ++ rest).length < r.header.opcodeSize := by
    rw [length_append, length]
    exact not_lt.mpr (Nat.le_add_right _ _)
  rw [fetchOpcode]
  simp only [enough, if_false, take_left' length, drop_left' length]
  cases pf : r.pf with
  | none =>
    have native : r.header = r.host := by rw [header, pf, Option.getD_none]
    rw [native, Machine.value_storeOpcode]
  | some file =>
    have foreign : r.header = file := by rw [header, pf, Option.getD_some]
    rw [foreign] at held ⊢
    exact congrArg (fun value => Except.ok (value, rest)) (Machine.fetchOp_store _ held)

theorem take_padded (r : Fetcher) (bytes rest : List UInt8) :
    r.take bytes.length (bytes ++ r.header.padding bytes.length ++ rest) = .ok (bytes, rest) := by
  have length := r.header.length_padded bytes
  have enough : ¬(bytes ++ r.header.padding bytes.length ++ rest).length <
      r.header.roundUp bytes.length * r.header.opcodeSize := by
    rw [length_append, length]
    exact not_lt.mpr (Nat.le_add_right _ _)
  rw [Fetcher.take]
  simp only [enough, if_false, drop_left' length]
  rw [append_assoc, take_left' rfl]

theorem toSize_cast {size : Nat} (held : r.host.Holds size) :
    r.toSize (r.host.cast size) = size := by
  have bound : (size : Int) < byteSpan r.host.opcodeSize := by
    have := @bmod_lt size (byteSpan r.host.opcodeSize) (byteSpan_pos _)
    rw [Machine.Holds, Machine.cast] at held
    omega
  rw [toSize, held, emod_eq_of_lt (natCast_nonneg size) bound, toNat_natCast]

theorem take_sized {bytes : List UInt8} (held : r.host.Holds bytes.length) (rest : List UInt8) :
    r.take (r.toSize (r.host.cast bytes.length))
      (bytes ++ (r.header.padding bytes.length ++ rest)) = .ok (bytes, rest) := by
  rw [toSize_cast held, ← append_assoc]
  exact r.take_padded bytes rest

theorem fetchBuf_store (written : r.header.Holds s.length)
    (held : r.host.Holds s.length) (rest : List UInt8) :
    r.fetchBuf (r.header.storeBuf s ++ rest) = .ok (s, rest) := by
  rw [Machine.storeBuf, append_assoc, append_assoc, fetchBuf, fetchOpcode_store written, ok_bind]
  exact take_sized held rest

theorem fetchCstring_store (ended : ∀ c ∈ s, c ≠ 0) (rest : List UInt8) :
    r.fetchCstring (r.header.storeCstring s ++ rest) = .ok (s, rest) := by
  have split : r.header.storeCstring s = s ++ [0] ++ r.header.padding (s.length + 1) := by
    have room := r.header.le_roundUp (s.length + 1)
    have zeros : r.header.sizeCstring s * r.header.opcodeSize - s.length =
        1 + (r.header.roundUp (s.length + 1) * r.header.opcodeSize - (s.length + 1)) := by
      rw [Machine.sizeCstring]
      omega
    rw [Machine.storeCstring, zeros, replicate_add, append_assoc]
    rfl
  have found : (s ++ [(0 : UInt8)] ++ r.header.padding (s.length + 1) ++ rest).takeWhile
      (fun c => decide (c ≠ 0)) = s := by
    rw [append_assoc, append_assoc, takeWhile_append_of_pos (by simpa using ended)]
    simp
  have taken := r.take_padded (s ++ [0]) rest
  rw [length_append, length_singleton] at taken
  rw [split, fetchCstring]
  simp only [found, taken]
  rfl

theorem flagWord_small (encoding : Encoding) (constant private7 : Bool) :
    ((flagWord encoding constant private7).toNat : Int).bmod (2 ^ 32) =
      (flagWord encoding constant private7).toNat := by
  cases encoding <;> cases constant <;> cases private7 <;> decide

/-- A string is the bytes that were stored, scanned as the reader reads them. -/
theorem fetchString_store {s : PfString} (written : r.header.Holds (s.bytes r.header.order).length)
    (held : r.host.Holds (s.bytes r.header.order).length) (rest : List UInt8) :
    r.fetch (r.header.storeString (some s) ++ rest) .string =
      (r.newString s.encoding (s.bytes r.header.order)).map fun str =>
        (.string (some str), rest) := by
  have small := flagWord_small s.encoding s.constant s.private7
  rcases flagWord_decodes s.encoding s.constant s.private7 with ⟨-, encoding, -, -⟩
  have notNull : ((flagWord s.encoding s.constant s.private7).toNat : Int) ≠ -1 := by omega
  rw [Machine.storeString, append_assoc, append_assoc, append_assoc, fetch,
    fetchString, fetchOpcode_store (Machine.cast_of_narrow small _), ok_bind]
  simp only [Machine.cast_of_narrow small, notNull, if_false, BitVec.ofInt_natCast,
    BitVec.ofNat_toNat, BitVec.setWidth_eq, fetchOpcode_store written, ok_bind, encoding,
    take_sized held]
  split
  · rename_i empty
    rw [newString, if_pos empty.1, empty.2]
    rfl
  · cases r.newString s.encoding (s.bytes r.header.order) <;> rfl

theorem fetchString_null (rest : List UInt8) :
    r.fetchString (r.header.storeString none ++ rest) = .ok (none, rest) := by
  have small : (-1 : Int).bmod (2 ^ 32) = -1 := by decide
  rw [Machine.storeString, fetchString, fetchOpcode_store (Machine.cast_of_narrow small _),
    Machine.cast_of_narrow small, ok_bind]
  rfl

end Fetcher

/-- Words of the machine, C strings without zeros, no size of half the memory. -/
def Item.Fits (host file : Machine) : Item → Prop
  | .opcode value => file.Holds value
  | .integer value => file.Holds value
  | .buf s => file.Holds s.length ∧ host.Holds s.length
  | .cstring s => ∀ c ∈ s, c ≠ 0
  | .string none => True
  | .string (some s) =>
    file.Holds (s.bytes file.order).length ∧ host.Holds (s.bytes file.order).length

/-- The machine holds every word, and reads the bytes of every code point the same. -/
def Item.Portable (host file : Machine) : Item → Prop
  | .opcode value => host.Holds value
  | .integer value => host.Holds value
  | .buf _ => True
  | .cstring _ => True
  | .string none => True
  | .string (some s) =>
    ∀ c ∈ s.codePoints, s.encoding.spell file.order c = s.encoding.spell host.order c

/-- What the reader makes of an item. -/
def Fetcher.receive (r : Fetcher) : Item → Except Fault Fetched
  | .opcode value => .ok (.opcode (r.host.cast value))
  | .integer value => .ok (.integer (r.host.cast value))
  | .buf s => .ok (.buf s)
  | .cstring s => .ok (.cstring s)
  | .string none => .ok (.string none)
  | .string (some s) =>
    (r.newString s.encoding (s.bytes r.header.order)).map fun str => .string (some str)

variable {r : Fetcher} {items : List Item}

theorem Fetcher.fetch_store {item : Item} (fits : item.Fits r.host r.header) (rest : List UInt8) :
    r.fetch (r.header.store item ++ rest) item.kind = (r.receive item).map fun content =>
      (content, rest) := by
  cases item with
  | opcode value | integer value =>
    change (r.fetchOpcode (r.header.storeOpcode value ++ rest)).map _ = _
    rw [fetchOpcode_store fits]
    rfl
  | buf s =>
    change (r.fetchBuf (r.header.storeBuf s ++ rest)).map _ = _
    rw [fetchBuf_store fits.1 fits.2]
    rfl
  | cstring s =>
    change (r.fetchCstring (r.header.storeCstring s ++ rest)).map _ = _
    rw [fetchCstring_store fits]
    rfl
  | string s =>
    cases s with
    | none =>
      change (r.fetchString (r.header.storeString none ++ rest)).map _ = _
      rw [fetchString_null]
      rfl
    | some s =>
      rw [Machine.store, Item.kind, fetchString_store fits.1 fits.2, receive]
      cases r.newString s.encoding (s.bytes r.header.order) <;> rfl

theorem Fetcher.fetchAll_store
    (fits : ∀ item ∈ items, item.Fits r.host r.header) (rest : List UInt8) :
    r.fetchAll (items.map Item.kind) (items.flatMap r.header.store ++ rest) =
      (items.mapM r.receive).map fun contents => (contents, rest) := by
  induction items with
  | nil => rfl
  | cons item items ih =>
    obtain ⟨fit, others⟩ := forall_mem_cons.mp fits
    rw [map_cons, flatMap_cons, append_assoc, fetchAll, fetch_store fit, mapM_cons]
    cases r.receive item with
    | error fault => rfl
    | ok content =>
      change (r.fetchAll _ _ >>= _) = _
      rw [ih others]
      cases items.mapM r.receive <;> rfl

theorem length_spell_order (encoding : Encoding) (left right : ByteOrder) (c : Nat) :
    (encoding.spell left c).length = (encoding.spell right c).length := by
  cases encoding with
  | utf16 => rw [Encoding.spell, Encoding.spell, length_bytesOf, length_bytesOf]
  | ucs2 => rw [length_spell_ucs2, length_spell_ucs2]
  | ucs4 => rw [length_spell_ucs4, length_spell_ucs4]
  | _ => rfl

theorem PfString.bytes_eq_iff (s : PfString) (left right : ByteOrder) :
    s.bytes left = s.bytes right ↔
      ∀ c ∈ s.codePoints, s.encoding.spell left c = s.encoding.spell right c := by
  unfold PfString.bytes
  induction s.codePoints with
  | nil => simp
  | cons c cs ih =>
    rw [WordCode.text_cons, WordCode.text_cons, forall_mem_cons, ← ih]
    constructor
    · exact fun same => append_inj same (length_spell_order s.encoding left right c)
    rintro ⟨first, others⟩
    rw [others]
    exact congrArg (· ++ _) first

/-- A new string is the stored one exactly when the reader's bytes are the same. -/
theorem Fetcher.newString_eq_iff (r : Fetcher) (s : PfString) (order : ByteOrder) :
    r.newString s.encoding (s.bytes order) =
        .ok ⟨s.encoding, s.bytes r.host.order, s.codePoints.length, 0⟩ ↔
      s.bytes order = s.bytes r.host.order := by
  constructor
  · intro made
    unfold newString at made
    split at made
    · rename_i empty
      rw [empty]
      exact congrArg ParrotString.bytes (Except.ok.inj made)
    split at made
    · exact congrArg ParrotString.bytes (Except.ok.inj made)
    · cases made
    · cases made
  intro same
  rw [same, newString]
  split
  · rename_i empty
    have none : s.codePoints = [] := by
      cases codes : s.codePoints with
      | nil => rfl
      | cons c cs =>
        rw [PfString.bytes, codes] at empty
        exact absurd empty (WordCode.text_ne_nil (s.holds c (codes ▸ mem_cons_self)))
    rw [empty, none]
    rfl
  · rw [PfString.bytes, stringScan_text r.host.order s.holds]

theorem Fetcher.receive_eq_iff (r : Fetcher) (item : Item) :
    r.receive item = .ok (item.content r.host.order) ↔ item.Portable r.host r.header := by
  cases item with
  | opcode value => rw [receive, Except.ok.injEq, Item.content, Fetched.opcode.injEq]; rfl
  | integer value => rw [receive, Except.ok.injEq, Item.content, Fetched.integer.injEq]; rfl
  | buf s | cstring s => exact ⟨fun _ => trivial, fun _ => rfl⟩
  | string s =>
    cases s with
    | none => exact ⟨fun _ => trivial, fun _ => rfl⟩
    | some s =>
      have made := r.newString_eq_iff s r.header.order
      rw [s.bytes_eq_iff] at made
      rw [Item.Portable, ← made, receive, map_eq_ok_iff]
      constructor
      · rintro ⟨str, run, same⟩
        rw [run, Option.some.inj (Fetched.string.inj same)]
      · exact fun run => ⟨_, run, rfl⟩

theorem mapM_eq_ok_map_iff {ε α β : Type} {f : α → Except ε β} {g : α → β} {list : List α} :
    list.mapM f = .ok (list.map g) ↔ ∀ a ∈ list, f a = .ok (g a) := by
  induction list with
  | nil => simp [mapM_nil, pure, Except.pure]
  | cons a list ih =>
    rw [mapM_cons, map_cons, forall_mem_cons, ← ih, bind_eq_ok_iff]
    constructor
    · rintro ⟨b, first, more⟩
      obtain ⟨others, rest, same⟩ := of_bind more
      cases same
      exact ⟨first, rest⟩
    · rintro ⟨first, rest⟩
      exact ⟨g a, first, by rw [rest]; rfl⟩

/-- The items take as many opcodes as their sizes say, and are fetched again. -/
def Fetcher.Returns (r : Fetcher) (items : List Item) : Prop :=
  (items.flatMap r.header.store).length = (items.map r.header.size).sum * r.header.opcodeSize ∧
    ∀ rest, r.fetchAll (items.map Item.kind) (items.flatMap r.header.store ++ rest) =
      .ok (items.map (Item.content r.host.order), rest)

theorem Fetcher.returns_iff (fits : ∀ item ∈ items, item.Fits r.host r.header) :
    r.Returns items ↔ ∀ item ∈ items, r.receive item = .ok (item.content r.host.order) := by
  have sizes : (items.flatMap r.header.store).length =
      (items.map r.header.size).sum * r.header.opcodeSize := by
    rw [length_flatMap, map_congr_left fun item _ => r.header.length_store item, sum_map_mul_right]
  rw [Returns, ← mapM_eq_ok_map_iff]
  constructor
  · rintro ⟨-, fetched⟩
    have whole := fetched []
    rw [fetchAll_store fits] at whole
    obtain ⟨contents, run, same⟩ := map_eq_ok_iff.mp whole
    rw [run, (Prod.mk.inj same).1]
  intro run
  refine ⟨sizes, fun rest => ?_⟩
  rw [fetchAll_store fits, run]
  rfl

/-- Items come back, and from a packfile of another machine as the same items, exactly
when the reader holds every word and spells every code point of a string as the writer
does. -/
theorem items_return_iff (r : Fetcher) (items : List Item)
    (fits : ∀ item ∈ items, item.Fits r.host r.header) :
    r.Returns items ↔ ∀ item ∈ items, item.Portable r.host r.header := by
  rw [Fetcher.returns_iff fits]
  exact forall₂_congr fun item _ => r.receive_eq_iff item

/-- A 64-bit little-endian machine that reads the packfile of another. -/
def readerOf (file : Machine) : Fetcher :=
  ⟨⟨.little, true⟩, some file⟩

def someItems : List Item :=
  [.opcode (-2), .integer 7, .buf [1, 2, 3], .cstring [104, 105], .string none,
    .string (some ⟨.latin1, [0x41], false, true, by simp [Encoding.Holds]⟩)]

theorem items_return_narrow : (readerOf ⟨.big, false⟩).Returns someItems := by
  have small : ∀ {value : Int}, value.bmod (2 ^ 32) = value → ∀ m : Machine, m.Holds value :=
    Machine.cast_of_narrow
  have fits : ∀ item ∈ someItems, item.Fits ⟨.little, true⟩ ⟨.big, false⟩ := by
    simp only [someItems, forall_mem_cons]
    exact ⟨small (by decide) _, small (by decide) _, ⟨small (by decide) _, small (by decide) _⟩,
      by simp [Item.Fits], trivial, ⟨small (by decide) _, small (by decide) _⟩,
      forall_mem_nil _⟩
  apply (items_return_iff (readerOf ⟨.big, false⟩) someItems fits).mpr
  simp only [someItems, forall_mem_cons]
  exact ⟨small (by decide) _, small (by decide) _, trivial, trivial, trivial, fun _ _ => rfl,
    forall_mem_nil _⟩

def letterA : PfString :=
  ⟨.utf16, [0x41], false, false, by simp [Encoding.Holds, IsCharacter]⟩

/-- The bytes of UTF-16 are not swapped, and another letter is read. -/
theorem utf16_not_swapped : (readerOf ⟨.big, true⟩).receive (.string (some letterA)) =
        .ok (.string (some ⟨.utf16, [0x00, 0x41], 1, 0⟩)) ∧
      ¬(readerOf ⟨.big, true⟩).Returns [.string (some letterA)] := by
  have received : (readerOf ⟨.big, true⟩).receive (.string (some letterA)) =
      .ok (.string (some ⟨.utf16, [0x00, 0x41], 1, 0⟩)) := by
    rfl
  refine ⟨received, fun returns => ?_⟩
  have fits : ∀ item ∈ [Item.string (some letterA)],
      item.Fits (readerOf ⟨.big, true⟩).host (readerOf ⟨.big, true⟩).header :=
    forall_mem_singleton.mpr
      ⟨Machine.cast_of_narrow (by decide) _, Machine.cast_of_narrow (by decide) _⟩
  have same := (Fetcher.returns_iff fits).mp returns _ mem_cons_self
  cases received.symm.trans same

end RakudoStar.Packfile
