import RakudoStar.Foundation.SharedBuffers
import RakudoStar.Strings.Independent

/-!
# String headers and their storage

The functions that create strings, over explicit storage. A header is a window on a buffer,
which several may share; `Parrot_str_concat` appends in place to one that may still grow.
-/

namespace RakudoStar.Strings

open Foundation

/-- The flags that decide whether a string may grow in place. -/
structure StringFlags where
  sysmem : Bool
  isStringCopy : Bool
  constant : Bool
  external : Bool
  deriving DecidableEq, Repr

def StringFlags.none : StringFlags := ⟨false, false, false, false⟩

def StringFlags.isGrowable (flags : StringFlags) : Bool :=
  !(flags.sysmem || flags.isStringCopy || flags.constant || flags.external)

/-- `STRING`. Its buffer is found by number, `strstart` counts from the start of the
buffer. -/
structure StringHeader where
  flags : StringFlags
  bufstart : Nat
  strstart : Nat
  bufused : Nat
  encoding : Encoding
  strlen : Nat
  hashval : UInt64
  deriving DecidableEq, Repr

def StringHeader.window (s : StringHeader) : BufferWindow :=
  ⟨s.bufstart, s.strstart, s.bufused, s.flags.isGrowable⟩

/-- The buffers and the string headers, in the order of their creation. -/
structure StringHeap where
  buffers : List (List UInt8)
  strings : List StringHeader

/-- At least as many bytes as asked for, with whatever they held. -/
structure Allocator where
  storage : Nat → Nat → List UInt8
  enough : ∀ n size, size ≤ (storage n size).length

/-- `ALIGNED_STRING_SIZE`, for 8-byte words. -/
def alignedStringSize (len : Nat) : Nat := (len + 8 + 7) / 8 * 8

/-- The string pool, over memory that was zero: room is lost for the pointer before
the storage. -/
def alignedAllocator : Allocator where
  storage := fun _ size => List.replicate (alignedStringSize size - 8) 0
  enough := by
    intro n size
    rw [List.length_replicate, alignedStringSize]
    omega

namespace StringHeap

/-- The windows of all headers. -/
def shared (heap : StringHeap) : SharedBuffers UInt8 :=
  ⟨heap.buffers, heap.strings.map StringHeader.window⟩

/-- The memory of a buffer; its length is `Buffer_buflen`. -/
def bufferAt (heap : StringHeap) (bufstart : Nat) : List UInt8 := heap.shared.bufferAt bufstart

/-- The string that a header stands for. -/
def view (heap : StringHeap) (s : StringHeader) : ParrotString :=
  ⟨s.encoding, heap.shared.view s.window, s.strlen, s.hashval⟩

/-- The header of the constant `""`. -/
def emptyHeader : StringHeader := ⟨⟨false, false, true, true⟩, 0, 0, 0, .ascii, 0, 0⟩

/-- The heap with the constant `""`, which is string number 0. -/
def initial : StringHeap := ⟨[[]], [emptyHeader]⟩

/-- `Parrot_gc_new_string_header`, filled in. -/
def newHeader (heap : StringHeap) (s : StringHeader) : StringHeap × Nat :=
  ({ heap with strings := heap.strings ++ [s] }, heap.strings.length)

/-- `Parrot_gc_allocate_string_storage`: for no bytes there is no storage. -/
def allocate (allocator : Allocator) (heap : StringHeap) (size : Nat) : List UInt8 :=
  if size = 0 then [] else allocator.storage heap.buffers.length size

/-- A header with storage of its own for `size` bytes, at whose start the bytes of a
string are put. -/
def newString (allocator : Allocator) (heap : StringHeap) (flags : StringFlags) (size : Nat)
    (str : ParrotString) : Except Fault (StringHeap × Nat) := do
  let memory ← writeAt (allocate allocator heap size) 0 str.bytes
  .ok (newHeader { heap with buffers := heap.buffers ++ [memory] }
    ⟨flags, heap.buffers.length, 0, str.bytes.length, str.encoding, str.strlen, str.hashval⟩)

/-- A header over memory that the caller hands over or keeps for it. -/
def newOver (heap : StringHeap) (flags : StringFlags) (memory : List UInt8) (bufused : Nat)
    (encoding : Encoding) (strlen : Nat) : StringHeap × Nat :=
  newHeader { heap with buffers := heap.buffers ++ [memory] }
    ⟨flags, heap.buffers.length, 0, bufused, encoding, strlen, 0⟩

end StringHeap

/-- The loop of `ascii_scan`. -/
def asciiScanLoop (p : List UInt8) : Except Fault Unit :=
  match p with
  | [] => .ok ()
  | byte :: p =>
    if 0x80 ≤ byte.toNat then
      .error (.thrown .invalidStringRepresentation "Invalid character in ASCII string")
    else asciiScanLoop p

/-- The loop of `ucs2_scan`. -/
def ucs2ScanLoop : List UInt16 → Except Fault Unit
  | [] => .ok ()
  | unit :: ptr => do
    ucs2CheckCodepoint unit.toNat
    ucs2ScanLoop ptr

/-- The loop of `ucs4_scan`. -/
def ucs4ScanLoop : List Nat → Except Fault Unit
  | [] => .ok ()
  | c :: ptr =>
    if isInvalid c then
      .error (.thrown .invalidCharacter "Invalid character in UCS-4 string\n")
    else ucs4ScanLoop ptr

/-- `STRING_scan`: the number of code points. -/
def stringScan (order : ByteOrder) (encoding : Encoding) (bytes : List UInt8) : Except Fault Nat :=
  match encoding with
  | .ascii => do
    asciiScanLoop bytes
    .ok bytes.length
  | .latin1 | .binary => .ok bytes.length
  | .utf8 => utf8Scan bytes
  | .utf16 => utf16Scan order bytes
  | .ucs2 =>
    if bytes.length &&& 1 ≠ 0 then
      .error (.thrown .invalidCharacter "Unaligned end in UCS-2 string\n")
    else do
      ucs2ScanLoop (unitsOf order bytes)
      .ok (bytes.length >>> 1)
  | .ucs4 =>
    if bytes.length &&& 3 ≠ 0 then
      .error (.thrown .invalidCharacter "Unaligned end in UCS-4 string\n")
    else do
      ucs4ScanLoop (codesOf order bytes)
      .ok (bytes.length >>> 2)

namespace StringHeap

section

variable (order : ByteOrder) (estimate : Nat → Nat) (allocator : Allocator)

/-- `Parrot_str_new_init` for a buffer that is not `NULL`. -/
def strNewInit (heap : StringHeap) (buffer : List UInt8) (encoding : Encoding)
    (flags : StringFlags) : Except Fault (StringHeap × Nat) :=
  if flags.external then do
    let strlen ← stringScan order encoding buffer
    .ok (newOver heap flags buffer buffer.length encoding strlen)
  else if buffer ≠ [] then do
    let strlen ← stringScan order encoding buffer
    newString allocator heap flags buffer.length ⟨encoding, buffer, strlen, 0⟩
  else newString allocator heap flags 0 ⟨encoding, [], 0, 0⟩

def strNewNoinit (heap : StringHeap) (capacity : Nat) : Except Fault (StringHeap × Nat) :=
  newString allocator heap .none (capacity * Encoding.ascii.maxBytesPerCodepoint) emptyString

/-- `Parrot_str_new_from_buffer`: the memory goes over from the `Buffer`, which is
nulled. -/
def strNewFromBuffer (heap : StringHeap) (memory : List UInt8) (len : Nat) : StringHeap × Nat :=
  newOver heap .none memory len .binary len

/-- The header that `Parrot_str_copy` makes. -/
def copyOf (s : StringHeader) : StringHeader :=
  { s with flags := { s.flags with isStringCopy := true } }

def strCopy (heap : StringHeap) (s : Nat) : Except Fault (StringHeap × Nat) := do
  let s ← read heap.strings s
  .ok (newHeader heap (copyOf s))

def strClone (heap : StringHeap) (s : Nat) : Except Fault (StringHeap × Nat) := do
  let s ← read heap.strings s
  newString allocator heap .none s.bufused (heap.view s)

/-- Whether a `to_encoding` function answers with a copy that shares the storage. -/
def sharesStorage (encoding source : Encoding) : Bool :=
  match encoding with
  | .ascii | .latin1 | .binary => source.maxBytesPerCodepoint = 1
  | .ucs4 => source = .ucs4
  | .utf8 | .utf16 | .ucs2 => false

/-- The `to_encoding` entry of an encoding. -/
def convert (heap : StringHeap) (encoding : Encoding) (src : Nat) :
    Except Fault (StringHeap × Nat) := do
  let s ← read heap.strings src
  let result ← toEncoding order estimate encoding (heap.view s)
  if sharesStorage encoding s.encoding then
    .ok (newHeader heap { copyOf s with encoding := result.encoding })
  else newString allocator heap .none result.bytes.length result

def strChangeEncoding (heap : StringHeap) (src : Nat) (encoding : Encoding) :
    Except Fault (StringHeap × Nat) := do
  let s ← read heap.strings src
  if encoding = s.encoding then .ok (heap, src)
  else convert order estimate allocator heap encoding src

/-- A copy whose window is moved. -/
def windowOf (s : StringHeader) (start bufused strlen : Nat) : StringHeader :=
  { copyOf s with strstart := s.strstart + start, bufused, strlen, hashval := 0 }

def strSubstr (heap : StringHeap) (src : Nat) (offset length : Int) :
    Except Fault (StringHeap × Nat) := do
  let s ← read heap.strings src
  match ← stringSubstr order (heap.view s) offset length with
  | .empty => .ok (heap, 0)
  | .whole => .ok (newHeader heap (copyOf s))
  | .part start bufused strlen => .ok (newHeader heap (windowOf s start bufused strlen))

def strIterSubstr (heap : StringHeap) (str : Nat) (l : StringIter) (r : Option StringIter) :
    Except Fault (StringHeap × Nat) := do
  let s ← read heap.strings str
  match r with
  | none =>
    .ok (newHeader heap (windowOf s l.bytepos (s.bufused - l.bytepos) (s.strlen - l.charpos)))
  | some r =>
    .ok (newHeader heap (windowOf s l.bytepos (r.bytepos - l.bytepos) (r.charpos - l.charpos)))

def repCompatible (a b : StringHeader) : Option Encoding :=
  if a.encoding = b.encoding then some a.encoding
  else if a.encoding.maxBytesPerCodepoint = 1 ∧ b.encoding.maxBytesPerCodepoint = 1 then
    if b.encoding = .ascii then some a.encoding
    else if a.encoding = .ascii then some b.encoding
    else if a.encoding = .binary then some a.encoding
    else if b.encoding = .binary then some b.encoding
    else none
  else if a.encoding = .utf8 ∧ b.encoding = .ascii then
    if a.strlen = a.bufused then some b.encoding else some a.encoding
  else if b.encoding = .utf8 ∧ a.encoding = .ascii then
    if b.strlen = b.bufused then some a.encoding else some b.encoding
  else none

/-- The encoding that `Parrot_str_concat` upgrades two strings to. -/
def upgradeEncoding (a b : Encoding) : Encoding :=
  if a = .ucs4 ∨ b = .ucs4 then .ucs4
  else if a = .utf16 ∨ b = .utf16 ∨ a = .ucs2 ∨ b = .ucs2 then .utf16
  else .utf8

/-- The operands of `Parrot_str_concat` after the upgrade, with the encoding of the
result. -/
def concatOperands (heap : StringHeap) (a b : Nat) :
    Except Fault (StringHeap × Encoding × Nat × Nat) := do
  let s ← read heap.strings a
  let t ← read heap.strings b
  match repCompatible s t with
  | some enc => .ok (heap, enc, a, b)
  | none =>
    let enc := upgradeEncoding s.encoding t.encoding
    let (heap, a) ← convert order estimate allocator heap enc a
    let (heap, b) ← convert order estimate allocator heap enc b
    .ok (heap, enc, a, b)

/-- The string flags are switched: `a` becomes a copy, the longer string may grow. -/
def growInPlace (heap : StringHeap) (a : Nat) (s dest : StringHeader) (memory : List UInt8) :
    StringHeap × Nat :=
  newHeader
    { buffers := heap.buffers.set s.bufstart memory, strings := heap.strings.set a (copyOf s) } dest

/-- In place if `a` may grow and has room, in new storage otherwise. -/
def appendString (heap : StringHeap) (enc : Encoding) (a b : Nat) :
    Except Fault (StringHeap × Nat) := do
  let s ← read heap.strings a
  let t ← read heap.strings b
  let totalLength := s.bufused + t.bufused
  if s.flags.isGrowable ∧ s.strstart + totalLength ≤ (heap.bufferAt s.bufstart).length then
    let dest := { s with
      bufused := totalLength, encoding := enc, strlen := s.strlen + t.strlen, hashval := 0 }
    let memory ← writeAt (heap.bufferAt s.bufstart) (s.strstart + s.bufused) (heap.view t).bytes
    .ok (growInPlace heap a s dest memory)
  else
    let capacity :=
      if 4 * t.bufused < s.bufused then totalLength + totalLength >>> 1 else totalLength
    newString allocator heap .none capacity
      ⟨enc, (heap.view s).bytes ++ (heap.view t).bytes, s.strlen + t.strlen, 0⟩

/-- `Parrot_str_concat` of two strings that are not `STRINGNULL`. -/
def concatStrings (heap : StringHeap) (a b : Nat) : Except Fault (StringHeap × Nat) := do
  let s ← read heap.strings a
  let t ← read heap.strings b
  if s.strlen = 0 then
    if t.strlen = 0 then .ok (heap, 0) else strCopy heap b
  else if t.strlen = 0 then strCopy heap a
  else
    let (heap, enc, a, b) ← concatOperands order estimate allocator heap a b
    appendString allocator heap enc a b

/-- `Parrot_str_concat` with one `STRINGNULL`, whose length is 0. -/
def concatNull (heap : StringHeap) (a : Nat) : Except Fault (StringHeap × Nat) := do
  let s ← read heap.strings a
  if s.strlen = 0 then .ok (heap, 0) else strCopy heap a

def convertToUtf8 (heap : StringHeap) (src : Nat) : Except Fault (StringHeap × Nat) := do
  let s ← read heap.strings src
  if s.encoding ≠ .utf8 then convert order estimate allocator heap .utf8 src
  else .ok (heap, src)

/-- The operands of `Parrot_str_replace` with the encoding that it selects. -/
def replaceOperands (heap : StringHeap) (src : Nat) (rep : Option Nat) :
    Except Fault (StringHeap × Encoding × Nat × Option Nat) := do
  let s ← read heap.strings src
  match rep with
  | none => .ok (heap, s.encoding, src, none)
  | some rep =>
    let t ← read heap.strings rep
    match repCompatible s t with
    | some enc => .ok (heap, enc, src, some rep)
    | none =>
      let (heap, src) ← convertToUtf8 order estimate allocator heap src
      let (heap, rep) ← convertToUtf8 order estimate allocator heap rep
      let s ← read heap.strings src
      .ok (heap, s.encoding, src, some rep)

/-- The string that is put in, which is empty for `STRINGNULL`. -/
def replacement (heap : StringHeap) : Option Nat → Except Fault ParrotString
  | none => .ok emptyString
  | some rep => do
    let t ← read heap.strings rep
    .ok (heap.view t)

/-- The part of `Parrot_str_replace` that builds the result. -/
def splice (heap : StringHeap) (enc : Encoding) (src offset length : Nat) (rep : Option Nat) :
    Except Fault (StringHeap × Nat) := do
  let s ← read heap.strings src
  let t ← replacement heap rep
  let start ← iterSkipOf order (heap.view s) .init offset
  let stop ← iterSkipOf order (heap.view s) start length
  if stop.bytepos < start.bytepos then
    .error (.thrown .substrOutOfString "replace: subend somehow is less than substart")
  else
    let bufSize := s.bufused - (stop.bytepos - start.bytepos) + t.bytes.length
    newString allocator heap .none bufSize
      ⟨enc, (heap.view s).bytes.take start.bytepos ++ t.bytes ++
        (heap.view s).bytes.drop stop.bytepos,
        s.strlen - (stop.charpos - start.charpos) + t.strlen, 0⟩

/-- In a string that is not `STRINGNULL`; negative offsets count from the end. -/
def strReplace (heap : StringHeap) (src : Nat) (offset length : Int) (rep : Option Nat) :
    Except Fault (StringHeap × Nat) := do
  let s ← read heap.strings src
  let trueOffset := if offset < 0 then s.strlen + offset else offset
  if trueOffset < 0 ∨ s.strlen < trueOffset then
    .error (.thrown .substrOutOfString
      "Can only replace inside string or index after end of string")
  else
    let rest := s.strlen - trueOffset.toNat
    let trueLength := if length < 0 ∨ rest < length then rest else length.toNat
    let (heap, enc, src, rep) ← replaceOperands order estimate allocator heap src rep
    splice order allocator heap enc src trueOffset.toNat trueLength rep

end

end StringHeap

/-- The calls that create strings. Strings are named by their number, `none` is
`STRINGNULL`. -/
inductive StringOperation where
  | newInit (buffer : List UInt8) (encoding : Encoding) (flags : StringFlags)
  | newNoinit (capacity : Nat)
  | newFromBuffer (memory : List UInt8) (len : Nat)
  | copy (s : Option Nat)
  | clone (s : Option Nat)
  | concat (a b : Option Nat)
  | substr (src : Option Nat) (offset length : Int)
  | iterSubstr (str : Nat) (l : StringIter) (r : Option StringIter)
  | replace (src : Option Nat) (offset length : Int) (rep : Option Nat)
  | changeEncoding (src : Option Nat) (encoding : Encoding)

namespace StringOperation

def operands : StringOperation → List Nat
  | newInit _ _ _ | newNoinit _ | newFromBuffer _ _ => []
  | copy s | clone s | substr s _ _ | changeEncoding s _ => s.toList
  | concat a b | replace a _ _ b => a.toList ++ b.toList
  | iterSubstr str _ _ => [str]

/-- A result that is not `STRINGNULL`. -/
def notNull (result : Except Fault (StringHeap × Nat)) : Except Fault (StringHeap × Option Nat) :=
  result.map fun (heap, s) => (heap, some s)

open StringHeap

/-- What a call does to the heap, and the string that it returns. -/
def run (order : ByteOrder) (estimate : Nat → Nat) (allocator : Allocator) (heap : StringHeap) :
    StringOperation → Except Fault (StringHeap × Option Nat)
  | newInit buffer encoding flags => notNull (strNewInit order allocator heap buffer encoding flags)
  | newNoinit capacity => notNull (strNewNoinit allocator heap capacity)
  | newFromBuffer memory len => notNull (.ok (strNewFromBuffer heap memory len))
  | copy none | clone none | concat none none | changeEncoding none _ => .ok (heap, none)
  | copy (some s) => notNull (strCopy heap s)
  | clone (some s) => notNull (strClone allocator heap s)
  | concat (some a) none | concat none (some a) => notNull (concatNull heap a)
  | concat (some a) (some b) => notNull (concatStrings order estimate allocator heap a b)
  | substr none _ _ => .error (.thrown .unexpectedNull "Invalid operation on null string")
  | substr (some src) offset length => notNull (strSubstr order heap src offset length)
  | iterSubstr str l r => notNull (strIterSubstr heap str l r)
  | replace none _ _ _ => .error (.thrown .unexpectedNull "Can't replace in NULL string")
  | replace (some src) offset length rep =>
    notNull (strReplace order estimate allocator heap src offset length rep)
  | changeEncoding (some src) encoding =>
    notNull (strChangeEncoding order estimate allocator heap src encoding)

end StringOperation

end RakudoStar.Strings
