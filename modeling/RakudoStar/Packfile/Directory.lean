import RakudoStar.Packfile.Segment

/-!
# The directory of a packfile

`PackFile_pack_size` sorts the segments and computes where each starts; `PackFile_pack` writes
them, `PackFile_unpack` reads a file of the same word size and byte order.
-/

namespace RakudoStar.Packfile

open Freeze

variable {P : Type}

/-- The first segment of a type from an index on. -/
def findType (type : SegType) (start : Nat) (segments : List (Segment P)) :
    Option (Nat × Segment P) :=
  (segments.zipIdx.find? fun entry => start ≤ entry.2 ∧ entry.1.type = type).map
    fun entry => (entry.2, entry.1)

/-- The first part of `sort_segs`: bytecode goes to the front. -/
def sortBytecode (segments : List (Segment P)) : List (Segment P) :=
  match segments[0]? with
  | none => segments
  | some seg =>
    if seg.type ≠ .bytec then
      match findType .bytec 1 segments with
      | some (i, s2) => (segments.set 0 s2).set i seg
      | none => segments
    else
      segments

/-- The second part of `sort_segs`: constants go before other segments. -/
def sortConstants (segments : List (Segment P)) : List (Segment P) :=
  match segments[1]? with
  | none => segments
  | some seg =>
    if seg.type ≠ .const then
      match findType .const 3 segments with
      | some (i, s2) => (segments.set 2 s2).set i seg
      | none => segments
    else
      segments

def sortSegs (segments : List (Segment P)) : List (Segment P) :=
  sortConstants (sortBytecode segments)

/-- A packfile, which is its own directory. -/
structure PackFile (P : Type) where
  /-- The part of the header that is written as it is. -/
  header : List UInt8
  uuidData : List UInt8
  itype : Word
  id : Word
  data : List Word
  segments : List (Segment P)

/-- A segment in the directory, with its recorded offset and size. -/
structure Placed (P : Type) where
  segment : Segment P
  fileOffset : Nat
  opCount : Nat

/-- A packfile whose size has been computed. -/
structure Sized (P : Type) where
  segments : List (Placed P)
  dirOpCount : Nat
  size : Nat

/-- The entries of the directory take up so much. -/
def entriesSize (segments : List (Segment P)) : Nat :=
  segments.foldl (fun size seg => size + (3 + sizeString seg.name)) 0

/-- A segment that is in two places has what was recorded last. -/
def recorded (placed : List (Placed P)) : List (Placed P) :=
  placed.map fun p =>
    (placed.reverse.find? fun q => q.segment.address = p.segment.address).getD p

section

variable [DecidableEq P] (imageHeader : Freeze.Header) (w : World P)

/-- The second loop of `directory_packed_size`, with the size so far. -/
def layOut (dirOffset : Nat) : Nat → List (Segment P) → Except Fault (List (Placed P) × Nat)
  | size, [] => .ok ([], size)
  | size, seg :: segments => do
    let segSize ← segmentPackedSize w seg
    let (placed, total) ← layOut dirOffset (size + segSize) segments
    .ok ({ segment := seg, fileOffset := size + dirOffset, opCount := segSize } :: placed, total)

/-- `directory_packed_size`, with what `default_packed_size` gives. -/
def directoryPackedSize (pf : PackFile P) (fileOffset : Nat) :
    Except Fault (List (Placed P) × Nat) := do
  let segments := sortSegs pf.segments
  let size := alignSize (1 + (segmentHeaderSize + pf.data.length) + entriesSize segments)
  let (placed, size) ← layOut w fileOffset size segments
  .ok (recorded placed, size)

def headerSize (pf : PackFile P) : Nat :=
  let size := packfileHeaderBytes + pf.uuidData.length
  size + if size % 16 = 0 then 0 else 16 - size % 16

def packFileSize (pf : PackFile P) : Except Fault (Sized P) := do
  let fileOffset := headerSize pf / wordsize + 4
  let (segments, dirOpCount) ← directoryPackedSize w pf fileOffset
  .ok { segments, dirOpCount, size := fileOffset + alignSize dirOpCount }

/-- The header, in a buffer that has held something. The padding is written where the UUID
begins. -/
def packHeader (pf : PackFile P) (buffer : List UInt8) : List UInt8 :=
  let paddingSize := headerSize pf - (packfileHeaderBytes + pf.uuidData.length)
  let behind := buffer.drop (packfileHeaderBytes + pf.uuidData.length)
  pf.header ++ List.replicate paddingSize 0 ++
    (pf.uuidData ++ behind.take paddingSize).drop paddingSize

def storeSegmentEntry (p : Placed P) : List UInt8 :=
  storeOpcode p.segment.type.num ++ (storeString p.segment.name ++
    (storeCount p.fileOffset ++ storeCount p.opCount))

def packSegments : List (Placed P) → List UInt8 → Except Fault (List UInt8)
  | [], file => .ok file
  | p :: placed, file => do
    let file ← segmentPack imageHeader w p.segment p.opCount file
    packSegments placed file

def directoryPack (placed : List (Placed P)) (file : List UInt8) : Except Fault (List UInt8) :=
  packSegments imageHeader w placed
    (align16 (file ++ (storeCount placed.length ++ placed.flatMap storeSegmentEntry)))

/-- `PF_DIR_FORMAT`, and the padding. -/
def dirFormat : List UInt8 :=
  storeOpcode 1 ++ (storeOpcode 0 ++ (storeOpcode 0 ++ storeOpcode 0))

/-- `PackFile_pack`, into a buffer that has held something. -/
def packFilePack (pf : PackFile P) (sized : Sized P) (buffer : List UInt8) :
    Except Fault (List UInt8) := do
  let start := packHeader pf buffer ++ dirFormat
  let file ← directoryPack imageHeader w sized.segments
    (start ++ defaultPack sized.dirOpCount pf.itype pf.id pf.data)
  let file := align16 file
  let used := (file.length - start.length) / wordsize
  if used ≠ sized.dirOpCount then
    .error (.exception (s!"PackFile_pack segment 'DIRECTORY' used size {shownInt used} " ++
      s!"but reported {shownInt sized.dirOpCount}\n"))
  else
    .ok file

end

/-- `make_code_pointers`, where it goes by whether there is a current code segment. -/
def makeCodePointers (type : SegType) (hasCode : Bool) : Except Fault Bool :=
  match type with
  | .bytec => .ok true
  | .const => if hasCode then .ok true else .error .outside
  | .debug => if hasCode then .ok true else .error .outside
  | _ => .ok hasCode

/-- One round of the first loop of `directory_unpack`. -/
def unpackEntry (loader : Loader) (whole : List UInt8) (hasCode : Bool) (file : List UInt8) :
    Except Fault (Entry × Bool × List UInt8) := do
  let (typeNum, file) ← fetchOpcode file
  match SegType.ofNum typeNum with
  | none => .error .outside
  | some type => do
    let (name, file) ← fetchString file
    let (fileOffset, file) ← fetchOpcode file
    let (opCount, file) ← fetchOpcode file
    let (opcode, _) ← fetchOpcode (whole.drop (fileOffset.toNat * wordsize))
    if opCount ≠ opcode then
      .error (.exception (s!"{loader.shown (text name)}: Size in directory " ++
        s!"{shownInt opCount.toNat} doesn't match size {shownInt opcode.toNat} " ++
        s!"at offset {shownHex fileOffset.toNat}\n"))
    else do
      let hasCode ← makeCodePointers type hasCode
      .ok ({ type, name, fileOffset, opCount }, hasCode, file)

/-- The first loop of `directory_unpack`. -/
def unpackDirectoryEntries (loader : Loader) (whole : List UInt8) :
    Nat → Bool → List UInt8 → Except Fault (List Entry × List UInt8)
  | 0, _, file => .ok ([], file)
  | count + 1, hasCode, file => do
    let (entry, hasCode, file) ← unpackEntry loader whole hasCode file
    let (entries, file) ← unpackDirectoryEntries loader whole count hasCode file
    .ok (entry :: entries, file)

/-- The second loop of `directory_unpack`. The size of a segment is read before the segment. -/
def unpackSegments (loader : Loader) (directory : List Entry) (whole : List UInt8) :
    List Entry → List Created → List UInt8 → Except Fault (List Loaded × List Created × List UInt8)
  | [], heap, file => .ok ([], heap, file)
  | seg :: entries, heap, file => do
    let _ ← fetchOpcode file
    let (loaded, heap, file) ← segmentUnpack loader directory seg whole heap file
    let (others, heap, file) ← unpackSegments loader directory whole entries heap file
    .ok (loaded :: others, heap, file)

def directoryUnpack (loader : Loader) (whole : List UInt8) (heap : List Created)
    (file : List UInt8) : Except Fault (List Loaded × List Created × List UInt8) := do
  let (numSegments, file) ← fetchSize file
  let (directory, file) ← unpackDirectoryEntries loader whole numSegments false file
  let file ← padCursor whole file
  unpackSegments loader directory whole directory heap file

def headerByte (header : List UInt8) (i : Nat) : Nat :=
  ((header[i]?).getD 0).toNat

/-- `PackFile_Header_validate`, with the version of the bytecode that is read. -/
def headerValidate (pbcMajor pbcMinor : Nat) (header : List UInt8) : Except Fault Unit :=
  let major := headerByte header 14
  let minor := headerByte header 15
  let size := headerByte header 8
  let order := headerByte header 9
  let floattype := headerByte header 10
  if header.take 8 ≠ [0xfe, 0x50, 0x42, 0x43, 0x0d, 0x0a, 0x1a, 0x0a] then
    .error (.exception "PackFile_Header_validate: This is not a valid Parrot bytecode file.")
  else if major ≠ pbcMajor ∨ minor ≠ pbcMinor then
    .error (.exception (s!"PackFile_Header_validate: This Parrot cannot read bytecode " ++
      s!"files with version {major}.{minor}."))
  else if size ≠ 4 ∧ size ≠ 8 then
    .error (.exception s!"PackFile_Header_validate: Invalid wordsize {size}\n")
  else if order ≠ 0 ∧ order ≠ 1 then
    .error (.exception s!"PackFile_Header_validate: Invalid byte ordering {order}\n")
  else if floattype > 2 then
    .error (.exception s!"PackFile_Header_validate: Invalid floattype {floattype}\n")
  else
    .ok ()

/-- `PackFile_Header_read_uuid`. What is added to `packed` is a number of opcodes. -/
def headerReadUuid (header whole : List UInt8) : Except Fault (List UInt8) :=
  let uuidType := headerByte header 16
  let uuidSize := headerByte header 17
  if uuidType = 0 then
    .ok []
  else if uuidType = 1 then
    if whole.length < packfileHeaderBytes + uuidSize then
      .error (.exception (s!"PackFile_Header_read_uuid: Buffer length {whole.length} is " ++
        s!"shorter than PACKFILE_HEADER_BYTES + uuid_size {packfileHeaderBytes + uuidSize}\n"))
    else if 0 < uuidSize ∧ whole.length < packfileHeaderBytes * wordsize + uuidSize then
      .error .outside
    else
      .ok ((whole.drop (packfileHeaderBytes * wordsize)).take uuidSize)
  else
    .error (.exception s!"PackFile_unpack: Invalid UUID type {uuidType}\n")

/-- `PackFile_Header_unpack`: the header, the UUID and the number of bytes. -/
def headerUnpack (pbcMajor pbcMinor : Nat) (whole : List UInt8) :
    Except Fault (List UInt8 × List UInt8 × Nat) :=
  if whole.length < packfileHeaderBytes then
    .error (.exception (s!"PackFile_unpack: Buffer length {whole.length} is shorter than " ++
      s!"PACKFILE_HEADER_BYTES {packfileHeaderBytes}."))
  else do
    let header := whole.take packfileHeaderBytes
    headerValidate pbcMajor pbcMinor header
    let uuidData ← headerReadUuid header whole
    .ok (header, uuidData, packfileHeaderBytes + headerByte header 17)

/-- A packfile that was unpacked. -/
structure LoadedFile where
  header : List UInt8
  uuidData : List UInt8
  itype : Word
  id : Word
  data : List Word
  segments : List Loaded
  heap : List Created

/-- `PackFile_unpack`, in a memory with some PMCs; also what is left of the file. -/
def packFileUnpack (loader : Loader) (pbcMajor pbcMinor : Nat) (heap : List Created)
    (whole : List UInt8) : Except Fault (LoadedFile × List UInt8) := do
  let (header, uuidData, read) ← headerUnpack pbcMajor pbcMinor whole
  let read := read + if read % 16 = 0 then 0 else 16 - read % 16
  let (format, file) ← fetchOpcode (whole.drop read)
  if format ≠ 1 then
    .error (.exception s!"PackFile_unpack: Dir format was {format.toInt} not 1\n")
  else do
    let (_, file) ← fetchOpcode file
    let (_, file) ← fetchOpcode file
    let (_, file) ← fetchOpcode file
    let ((_, itype, id, data), file) ← defaultUnpack file
    let (segments, heap, file) ← directoryUnpack loader whole heap file
    let file ← padCursor whole file
    .ok ({ header, uuidData, itype, id, data, segments, heap }, file)

end RakudoStar.Packfile

namespace RakudoStar.Packfile

variable {segments : List (Segment P)} {type : SegType} {start i : Nat} {seg : Segment P}

theorem findType_spec (found : findType type start segments = some (i, seg)) :
    start ≤ i ∧ segments[i]? = some seg ∧ seg.type = type := by
  rcases Option.map_eq_some_iff.mp found with ⟨⟨other, index⟩, first, same⟩
  rcases Prod.mk.inj same with ⟨rfl, rfl⟩
  have fits := List.find?_some first
  simp only [decide_eq_true_eq] at fits
  exact ⟨fits.1, List.mem_zipIdx_iff_getElem?.mp (List.mem_of_find?_eq_some first), fits.2⟩

theorem findType_eq_none_iff : findType type start segments = none ↔
    ∀ i seg, start ≤ i → segments[i]? = some seg → seg.type ≠ type := by
  rw [findType, Option.map_eq_none_iff, List.find?_eq_none]
  constructor
  · intro never i seg behind present same
    exact never (seg, i) (List.mem_zipIdx_iff_getElem?.mpr present) (decide_eq_true ⟨behind, same⟩)
  rintro never ⟨seg, i⟩ member fits
  rcases of_decide_eq_true fits with ⟨behind, same⟩
  exact never i seg behind (List.mem_zipIdx_iff_getElem?.mp member) same

theorem sortBytecode_perm (segments : List (Segment P)) :
    (sortBytecode segments).Perm segments := by
  unfold sortBytecode
  split
  · exact .refl _
  case h_2 seg first =>
    split
    · split
      · case h_1 i s2 found =>
          rcases findType_spec found with ⟨_, present, _⟩
          rcases List.getElem?_eq_some_iff.mp first with ⟨nonempty, rfl⟩
          rcases List.getElem?_eq_some_iff.mp present with ⟨inside, rfl⟩
          exact List.set_set_perm nonempty inside
      · exact .refl _
    · exact .refl _

theorem sortBytecode_front (present : ∃ seg ∈ segments, seg.type = .bytec) :
    ∃ seg, (sortBytecode segments)[0]? = some seg ∧ seg.type = .bytec := by
  rcases present with ⟨code, member, isCode⟩
  rcases List.getElem?_of_mem member with ⟨k, atK⟩
  have nonempty : 0 < segments.length := List.length_pos_of_mem member
  have first := List.getElem?_eq_getElem nonempty
  unfold sortBytecode
  rw [first]
  dsimp only
  split
  case isTrue other =>
    cases found : findType .bytec 1 segments with
    | none =>
      have never := findType_eq_none_iff.mp found k code
      cases k with
      | zero =>
        rw [first] at atK
        cases atK
        exact absurd isCode other
      | succ k => exact absurd isCode (never (Nat.le_add_left 1 k) atK)
    | some entry =>
      rcases entry with ⟨i, s2⟩
      rcases findType_spec found with ⟨behind, _, isBytecode⟩
      refine ⟨s2, ?_, isBytecode⟩
      rw [List.getElem?_set_ne (ne_of_gt behind), List.getElem?_set_self nonempty]
  case isFalse isBytecode =>
    exact ⟨segments[0], first, not_not.mp isBytecode⟩

/-- No constant segment is moved to index two. -/
def KeepsSegments (segments : List (Segment P)) : Prop :=
  (∃ seg, (sortBytecode segments)[1]? = some seg ∧ seg.type = .const) ∨
    ∀ i seg, 3 ≤ i → (sortBytecode segments)[i]? = some seg → seg.type ≠ .const

theorem sortSegs_of_keeps (keeps : KeepsSegments segments) :
    sortSegs segments = sortBytecode segments := by
  rw [sortSegs, sortConstants]
  split
  · rfl
  case h_2 seg second =>
    split
    case isTrue other =>
      rcases keeps with ⟨const, present, isConst⟩ | never
      · cases second.symm.trans present
        exact absurd isConst other
      · rw [findType_eq_none_iff.mpr never]
    · rfl

theorem twice_of_moved (drops : ¬KeepsSegments segments)
    (long : 1 < (sortBytecode segments).length) :
    ∃ seg i, 3 ≤ i ∧ (sortSegs segments)[1]? = some seg ∧ (sortSegs segments)[i]? = some seg := by
  rcases not_or.mp drops with ⟨notSecond, moved⟩
  have second := List.getElem?_eq_getElem long
  have other : (sortBytecode segments)[1].type ≠ .const :=
    fun isConst => notSecond ⟨_, second, isConst⟩
  cases found : findType .const 3 (sortBytecode segments) with
  | none => exact absurd (findType_eq_none_iff.mp found) moved
  | some entry =>
    rcases entry with ⟨i, s2⟩
    rcases findType_spec found with ⟨behind, present, _⟩
    rcases List.getElem?_eq_some_iff.mp present with ⟨inside, _⟩
    refine ⟨(sortBytecode segments)[1], i, behind, ?_, ?_⟩
    · rw [sortSegs, sortConstants, second]
      dsimp only
      rw [if_pos other, found]
      rw [List.getElem?_set_ne (by omega), List.getElem?_set_ne (by decide), second]
    rw [sortSegs, sortConstants, second]
    dsimp only
    rw [if_pos other, found]
    rw [List.getElem?_set_self (by rw [List.length_set]; exact inside)]

/-- `sort_segs` permutes the segments exactly when no constant segment is moved. -/
theorem sortSegs_perm_iff (distinct : (segments.map Segment.address).Nodup)
    (long : 1 < segments.length) : (sortSegs segments).Perm segments ↔ KeepsSegments segments := by
  have same := sortBytecode_perm segments
  constructor
  · intro permuted
    by_contra drops
    rcases twice_of_moved drops (by rw [same.length_eq]; exact long) with
      ⟨seg, i, behind, second, again⟩
    have nodup : ((sortSegs segments).map Segment.address).Nodup :=
      (permuted.map _).nodup_iff.mpr distinct
    have inside : 1 < ((sortSegs segments).map Segment.address).length := by
      rw [List.length_map]
      exact (List.getElem?_eq_some_iff.mp second).1
    have equal : 1 = i := by
      apply (List.getElem?_inj inside nodup).mp
      rw [List.getElem?_map, List.getElem?_map, second, again]
    omega
  · intro keeps
    rw [sortSegs_of_keeps keeps]
    exact same

end RakudoStar.Packfile
