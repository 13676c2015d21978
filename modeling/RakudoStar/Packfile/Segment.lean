import RakudoStar.Freeze.ConstTable

/-!
# Segments of a packfile

A segment has a block of opcodes, and a part that depends on its type. The size of
that part is computed by one function, and another writes it.
-/

namespace RakudoStar.Packfile

open Freeze

variable {P : Type}

/-- `pack_file_types`, without directories inside of a directory. -/
inductive SegType where
  | unknown
  | const
  | bytec
  | debug
  | annotations
  deriving DecidableEq, Repr

def SegType.num : SegType → Word
  | .unknown => 1
  | .const => 2
  | .bytec => 3
  | .debug => 4
  | .annotations => 5

/-- The type of a number. Types from `PF_MAX_SEG` on are unknown. -/
def SegType.ofNum (type : Word) : Option SegType :=
  if type.toNat ≥ 6 then some .unknown
  else if type = 1 then some .unknown
  else if type = 2 then some .const
  else if type = 3 then some .bytec
  else if type = 4 then some .debug
  else if type = 5 then some .annotations
  else none

/-- What matters of `op_lib_t`. -/
structure OpLib where
  name : List UInt8
  majorVersion : Word
  minorVersion : Word
  patchVersion : Word
  opCount : Nat
  deriving DecidableEq

/-- `PackFile_ByteCode_OpMappingEntry`, its two arrays side by side. -/
structure OpMappingEntry where
  lib : OpLib
  ops : List (Word × Word)

structure ByteCode where
  mainSub : Word
  opCount : Nat
  libdeps : List (Option PStr)
  libs : List OpMappingEntry

/-- `PackFile_Annotations_Key`. The type is a value of a C enumeration. -/
structure AnnotationsKey where
  name : Word
  type : BitVec 32
  start : Word
  len : Word

/-- What the segments of a type have of their own. -/
inductive Content (C : Type) where
  | unknown
  | const (table : C)
  | bytec (code : ByteCode)
  | debug (mappings : List (Word × Word))
  | annotations (keys : List AnnotationsKey)

def Content.type {C : Type} : Content C → SegType
  | .unknown => .unknown
  | .const _ => .const
  | .bytec _ => .bytec
  | .debug _ => .debug
  | .annotations _ => .annotations

/-- `PackFile_Segment`, with its address. -/
structure Segment (P : Type) where
  address : Nat
  name : Option PStr
  itype : Word
  id : Word
  data : List Word
  content : Content (ConstTable P)

def Segment.type (self : Segment P) : SegType :=
  self.content.type

def segmentHeaderSize : Nat := 4

/-- Pad a number of opcodes to sixteen bytes. -/
def alignSize (size : Nat) : Nat :=
  size + if size % 2 = 0 then 0 else 2 - size % 2

def sizeCstring (s : List UInt8) : Nat :=
  (s.length + 1 + (wordsize - 1)) / wordsize

/-- What a computation that needs rounds has come to. -/
def ended {α : Type} : Option α → Except Fault α
  | some value => .ok value
  | none => .error .outside

/-- One library in `byte_code_packed_size`. -/
def sizeEntry (entry : OpMappingEntry) : Nat :=
  sizeCstring entry.lib.name + 3 + 1 + entry.ops.length * 2

def byteCodePackedSize (code : ByteCode) : Nat :=
  code.libs.foldl (fun size entry => size + sizeEntry entry)
    (code.libdeps.foldl (fun size libdep => size + sizeString libdep) 4)

def debugPackedSize (mappings : List (Word × Word)) : Nat :=
  mappings.length * 2 + 1

def annotationsPackedSize (keys : List AnnotationsKey) : Nat :=
  1 + keys.length * 4

section

variable [DecidableEq P] (header : Freeze.Header) (w : World P)

/-- `packed_size` of a type. -/
def contentPackedSize : Content (ConstTable P) → Except Fault Nat
  | .unknown => .ok 0
  | .const table => ended (packSize w table)
  | .bytec code => .ok (byteCodePackedSize code)
  | .debug mappings => .ok (debugPackedSize mappings)
  | .annotations keys => .ok (annotationsPackedSize keys)

def segmentPackedSize (self : Segment P) : Except Fault Nat := do
  let size ← contentPackedSize w self.content
  .ok (alignSize (segmentHeaderSize + self.data.length + size))

def storeCstring (s : List UInt8) : List UInt8 :=
  s ++ List.replicate (sizeCstring s * wordsize - s.length) 0

/-- One library in `byte_code_pack`. -/
def storeEntry (entry : OpMappingEntry) : List UInt8 :=
  storeCstring entry.lib.name ++ (storeOpcode entry.lib.majorVersion ++
    (storeOpcode entry.lib.minorVersion ++ (storeOpcode entry.lib.patchVersion ++
      (storeCount entry.ops.length ++ entry.ops.flatMap storeTag))))

def byteCodePack (code : ByteCode) : List UInt8 :=
  storeOpcode code.mainSub ++ (storeCount code.libdeps.length ++ (storeCount code.opCount ++
    (storeCount code.libs.length ++ (code.libdeps.flatMap storeString ++
      code.libs.flatMap storeEntry))))

/-- `pf_debug_pack`. The number of mappings goes through an `int`. -/
def debugPack (mappings : List (Word × Word)) : List UInt8 :=
  let n : Int := (mappings.length : Int).bmod (2 ^ 32)
  storeOpcode (BitVec.ofInt 64 n) ++ (mappings.take n.toNat).flatMap storeTag

/-- One key in `PackFile_Annotations_pack`. -/
def storeKey (key : AnnotationsKey) : List UInt8 :=
  storeOpcode key.name ++ (storeOpcode (key.type.setWidth 64) ++ (storeOpcode key.start ++
    storeOpcode key.len))

def annotationsPack (keys : List AnnotationsKey) : List UInt8 :=
  storeCount keys.length ++ keys.flatMap storeKey

/-- `pack` of a type. -/
def contentPack : Content (ConstTable P) → Except Fault (List UInt8)
  | .unknown => .ok []
  | .const table => ended (pack header w table)
  | .bytec code => .ok (byteCodePack code)
  | .debug mappings => .ok (debugPack mappings)
  | .annotations keys => .ok (annotationsPack keys)

def defaultPack (opCount : Nat) (itype id : Word) (data : List Word) : List UInt8 :=
  storeCount opCount ++ (storeOpcode itype ++ (storeOpcode id ++ (storeCount data.length ++
    data.flatMap storeOpcode)))

/-- `ALIGN_16` in a file that is written from its start, with zeros. -/
def align16 (file : List UInt8) : List UInt8 :=
  file ++ List.replicate (if file.length % 16 = 0 then 0 else 16 - file.length % 16) 0

/-- `PackFile_Segment_pack`, behind what has been written of a file. -/
def segmentPack (self : Segment P) (opCount : Nat) (file : List UInt8) :
    Except Fault (List UInt8) := do
  let content ← contentPack header w self.content
  .ok (align16 (file ++ defaultPack opCount self.itype self.id self.data ++ content))

end

/-- What is unpacked of the segments of each type, and the memory of the PMCs. -/
abbrev LoadedContent := Content Unpacked

abbrev Name := Option (Strings.Encoding × List UInt8)

/-- The header of images, the types of PMCs, the op libraries, and string functions. -/
structure Loader where
  header : Freeze.Header
  vtableMax : Int
  types : Word → Thawing
  /-- `Parrot_dyn_load_lib` and the function that gives the library. -/
  loadLib : List UInt8 → Option OpLib
  /-- `STRING_substr`, without some last characters. -/
  codeName : Name → Nat → Name
  sameName : Name → Name → Bool
  /-- The `%Ss` of a message. -/
  shown : Name → String
  /-- What `%s` makes of the memory of a string. -/
  shownMemory : Name → String

/-- The `%d` of a message, for an argument that is cast to an `int`. -/
def shownInt (n : Nat) : String :=
  toString ((n : Int).bmod (2 ^ 32))

/-- The `0x%x` of a message. -/
def shownHex (n : Nat) : String :=
  "0x" ++ String.ofList (Nat.toDigits 16 (n % 2 ^ 32))

/-- The `%s` of a message. -/
def cString (s : List UInt8) : String :=
  String.ofList (s.map fun byte => Char.ofNat byte.toNat)

/-- A `size_t` that is fetched. -/
def fetchSize (file : List UInt8) : Except Fault (Nat × List UInt8) := do
  let (size, file) ← fetchOpcode file
  .ok (size.toNat, file)

def fetchCstring (file : List UInt8) : Except Fault (List UInt8 × List UInt8) :=
  let s := file.takeWhile (· ≠ 0)
  if s.length = file.length ∨ file.length < roundUpB (s.length + 1) then
    .error .outside
  else
    .ok (s, file.drop (roundUpB (s.length + 1)))

/-- The loop over the op entries of a library, with the function table. -/
def unpackOps (lib : OpLib) (opCount : Nat) :
    Nat → List Word → List UInt8 → Except Fault (List (Word × Word) × List Word × List UInt8)
  | 0, set, file => .ok ([], set, file)
  | count + 1, set, file => do
    let (idx, file) ← fetchOpcode file
    let (op, file) ← fetchOpcode file
    let lastOp : Int := lib.opCount - 1
    let lastIdx : Int := opCount - 1
    if op.toInt < 0 ∨ op.toInt ≥ lib.opCount then
      .error (.exception (s!"opcode index out of bounds on library `{cString lib.name}'. " ++
        s!"Found {op.toInt}, expected 0 to {lastOp}."))
    else if idx.toInt < 0 ∨ idx.toInt ≥ opCount then
      .error (.exception
        (s!"op table index out of bounds for entry from library `{cString lib.name}'." ++
          s!" Found {idx.toInt}, expected 0 to {lastIdx}"))
    else if idx ∈ set then
      .error (.exception "duplicate entries in optable")
    else do
      let (ops, set, file) ← unpackOps lib opCount count (idx :: set) file
      .ok ((idx, op) :: ops, set, file)

/-- The loop over the libraries in `byte_code_unpack`. -/
def unpackEntries (loader : Loader) (opCount : Nat) :
    Nat → List Word → List UInt8 → Except Fault (List OpMappingEntry × List UInt8)
  | 0, _, file => .ok ([], file)
  | count + 1, set, file => do
    let (name, file) ← fetchCstring file
    let (major, file) ← fetchOpcode file
    let (minor, file) ← fetchOpcode file
    let (patch, file) ← fetchOpcode file
    match loader.loadLib name with
    | none => .error (.exception s!"Could not load oplib `{cString name}'")
    | some lib =>
      if lib.majorVersion ≠ major ∨ lib.minorVersion ≠ minor ∨ lib.patchVersion ≠ patch then
        .error (.exception (s!"Incompatible versions of `{cString lib.name}' oplib, " ++
          "possibly due to loading bytecode generated by an old version of Parrot. " ++
          s!"Found {major.toInt}.{minor.toInt}.{patch.toInt} but loaded " ++
          s!"{lib.majorVersion.toInt}.{lib.minorVersion.toInt}.{lib.patchVersion.toInt}"))
      else do
        let (nOps, file) ← fetchCount file
        let (ops, set, file) ← unpackOps lib opCount nOps set file
        let (entries, file) ← unpackEntries loader opCount count set file
        .ok ({ lib, ops } :: entries, file)

def byteCodeUnpack (loader : Loader) (file : List UInt8) :
    Except Fault (ByteCode × List UInt8) := do
  let (mainSub, file) ← fetchOpcode file
  let (nLibdeps, file) ← fetchSize file
  let (opCount, file) ← fetchSize file
  let (nLibs, file) ← fetchCount file
  let (libdeps, file) ← fetchEach fetchString nLibdeps file
  let (libs, file) ← unpackEntries loader opCount nLibs [] file
  let totalOps := libs.foldl (fun total entry => total + entry.ops.length) 0
  if totalOps ≠ opCount then
    .error (.exception (s!"wrong number of ops decoded for optable. Decoded {totalOps}, " ++
      s!"but expected {opCount}"))
  else
    .ok ({ mainSub, opCount, libdeps, libs }, file)

/-- One key in `PackFile_Annotations_unpack`. -/
def fetchKey (file : List UInt8) : Except Fault (AnnotationsKey × List UInt8) := do
  let (name, file) ← fetchOpcode file
  let (type, file) ← fetchOpcode file
  let (start, file) ← fetchOpcode file
  let (len, file) ← fetchOpcode file
  .ok ({ name, type := type.setWidth 32, start, len }, file)

/-- An entry of the directory that is unpacked. -/
structure Entry where
  type : SegType
  name : Option PStr
  fileOffset : Word
  opCount : Word

/-- `PackFile_find_segment`, in this directory only. -/
def findSegment (loader : Loader) (directory : List Entry) (name : Name) : Option Entry :=
  directory.find? fun seg => loader.sameName (text seg.name) name

/-- The code that a debug or annotations segment is attached to. -/
def attach (loader : Loader) (directory : List Entry) (name : Name) (suffix : Nat)
    (kind : String) (shown : Name → String) : Except Fault Unit :=
  let codeName := loader.codeName name suffix
  let message := s!"Code '{shown codeName}' not found for {kind} segment '{shown name}'\n"
  match findSegment loader directory codeName with
  | none => .error (.exception message)
  | some code => if code.type = .bytec then .ok () else .error (.exception message)

/-- `unpack` of a type. -/
def contentUnpack (loader : Loader) (directory : List Entry) (seg : Entry) (heap : List Created)
    (file : List UInt8) : Except Fault (LoadedContent × List Created × List UInt8) :=
  match seg.type with
  | .unknown => .ok (.unknown, heap, file)
  | .const => do
    let (table, file) ← unpack loader.header loader.vtableMax loader.types heap file
    .ok (.const table, table.heap, file)
  | .bytec => do
    let (code, file) ← byteCodeUnpack loader file
    .ok (.bytec code, heap, file)
  | .debug => do
    let (count, file) ← fetchCount file
    let (mappings, file) ← fetchEach fetchTag count file
    attach loader directory (text seg.name) 3 "debug" loader.shown
    .ok (.debug mappings, heap, file)
  | .annotations => do
    let (count, file) ← fetchCount file
    let (keys, file) ← fetchEach fetchKey count file
    attach loader directory (text seg.name) 4 "annotations" loader.shownMemory
    .ok (.annotations keys, heap, file)

def defaultUnpack (file : List UInt8) :
    Except Fault ((Word × Word × Word × List Word) × List UInt8) := do
  let (opCount, file) ← fetchOpcode file
  let (itype, file) ← fetchOpcode file
  let (id, file) ← fetchOpcode file
  let (size, file) ← fetchSize file
  let (data, file) ← fetchEach fetchOpcode size file
  .ok ((opCount, itype, id, data), file)

/-- The cursor at the next multiple of sixteen; the offset is an `int`. -/
def padCursor (whole file : List UInt8) : Except Fault (List UInt8) :=
  let offs : Int := ((whole.length - file.length : Nat) : Int).bmod (2 ^ 32)
  let offs := offs + if offs.tmod 16 = 0 then 0 else 16 - offs.tmod 16
  if offs < 0 ∨ whole.length < offs.toNat / wordsize * wordsize then
    .error .outside
  else
    .ok (whole.drop (offs.toNat / wordsize * wordsize))

/-- A segment that was unpacked. -/
structure Loaded where
  type : SegType
  name : Option PStr
  fileOffset : Word
  opCount : Word
  itype : Word
  id : Word
  data : List Word
  content : LoadedContent

def segmentUnpack (loader : Loader) (directory : List Entry) (seg : Entry) (whole : List UInt8)
    (heap : List Created) (file : List UInt8) :
    Except Fault (Loaded × List Created × List UInt8) := do
  let ((opCount, itype, id, data), file) ← defaultUnpack file
  let (content, heap, file) ← contentUnpack loader directory seg heap file
  let file ← padCursor whole file
  .ok ({ seg with opCount, itype, id, data, content }, heap, file)

end RakudoStar.Packfile
