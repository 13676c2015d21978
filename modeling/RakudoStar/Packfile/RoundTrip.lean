import RakudoStar.Packfile.Entries

/-!
# Packfiles come back

A packfile is read as it was written when `sort_segs` keeps its segments; it does not when
a constant segment is moved to index two.
-/

namespace RakudoStar.Packfile

open Freeze List RakudoStar.Except

variable {P : Type} {pf : PackFile P}

/-- A valid header, and different segments, named after their code. -/
structure PackFile.Lawful (loader : Loader) (pbcMajor pbcMinor : Nat) (pf : PackFile P) : Prop where
  length_header : pf.header.length = packfileHeaderBytes
  validated : headerValidate pbcMajor pbcMinor pf.header = .ok ()
  native : headerByte pf.header 8 = wordsize ∧ headerByte pf.header 9 = 0 ∧
    headerByte pf.header 10 = 0
  uuidType : headerByte pf.header 16 = 0 ∨ headerByte pf.header 16 = 1
  uuidSize : headerByte pf.header 17 = pf.uuidData.length
  distinct : (pf.segments.map Segment.address).Nodup
  code : ∃ seg ∈ pf.segments, seg.type = .bytec
  constants : ∃ seg ∈ pf.segments, seg.type = .const
  contents : ∀ seg ∈ pf.segments, seg.content.Lawful loader
  belongs : ∀ seg ∈ pf.segments, seg.Belongs loader pf.segments

theorem PackFile.Lawful.long {loader : Loader} {pbcMajor pbcMinor : Nat}
    (lawful : pf.Lawful loader pbcMajor pbcMinor) : 1 < pf.segments.length := by
  rcases lawful.code with ⟨code, codeIn, isCode⟩
  rcases lawful.constants with ⟨const, constIn, isConst⟩
  rcases getElem_of_mem codeIn with ⟨i, inside, rfl⟩
  rcases getElem_of_mem constIn with ⟨k, within, rfl⟩
  have different : i ≠ k := by
    rintro rfl
    rw [isCode] at isConst
    cases isConst
  omega

section

variable [DecidableEq P] (loader : Loader) (pbcMajor pbcMinor : Nat) (w : World P)
  (pf : PackFile P)

/-- Packing writes what was computed, and what is unpacked is the same. -/
def RoundTrips : Prop :=
  (sortSegs pf.segments).Perm pf.segments ∧ ∃ sized, packFileSize w pf = .ok sized ∧
      (sized.segments.map Placed.segment).Perm pf.segments ∧
      ∀ buffer heap, sized.size * wordsize ≤ buffer.length →
        ∃ file, packFilePack loader.header w pf sized buffer = .ok file ∧
          file.length = sized.size * wordsize ∧
          (∀ p ∈ sized.segments, p.fileOffset * wordsize % 16 = 0 ∧
            segmentPackedSize w p.segment = .ok p.opCount ∧
            ∃ content, contentPack loader.header w p.segment.content = .ok content ∧
              (file.drop (p.fileOffset * wordsize)).take (p.opCount * wordsize) =
                segmentBytes p.segment p.opCount content ∧
              (segmentBytes p.segment p.opCount content).length = p.opCount * wordsize) ∧
          ∃ loaded rest, packFileUnpack loader pbcMajor pbcMinor heap file = .ok (loaded, rest) ∧
            List.Forall₂ (fun p l => SameSegment w loaded.heap p.segment l) sized.segments
              loaded.segments

end

theorem headerSize_multiple (pf : PackFile P) : headerSize pf % 16 = 0 := by
  unfold headerSize
  dsimp only
  split <;> omega

theorem le_headerSize (pf : PackFile P) :
    packfileHeaderBytes + pf.uuidData.length ≤ headerSize pf :=
  Nat.le_add_right _ _

theorem length_packHeader {buffer : List UInt8} (length : pf.header.length = packfileHeaderBytes)
    (enough : headerSize pf ≤ buffer.length) : (packHeader pf buffer).length = headerSize pf := by
  have size := le_headerSize pf
  simp only [packHeader, length_append, length_replicate, length_drop, length_take, length]
  omega

theorem length_dirFormat : dirFormat.length = 4 * wordsize := by
  simp only [dirFormat, length_append, length_storeOpcode]
  rfl

theorem headerUnpack_pack {loader : Loader} {pbcMajor pbcMinor : Nat} {pf : PackFile P}
    (lawful : pf.Lawful loader pbcMajor pbcMinor) {buffer tail : List UInt8}
    (enough : headerSize pf ≤ buffer.length) (inside : packfileHeaderBytes * wordsize +
      pf.uuidData.length ≤ (packHeader pf buffer ++ tail).length) :
    ∃ uuidData, headerUnpack pbcMajor pbcMinor (packHeader pf buffer ++ tail) =
      .ok (pf.header, uuidData, packfileHeaderBytes + pf.uuidData.length) := by
  have size := le_headerSize pf
  have length : (packHeader pf buffer ++ tail).length = headerSize pf + tail.length := by
    rw [length_append, length_packHeader lawful.length_header enough]
  have taken : (packHeader pf buffer ++ tail).take packfileHeaderBytes = pf.header := by
    simp only [packHeader, append_assoc]
    exact take_left' lawful.length_header
  have long : ¬(packHeader pf buffer ++ tail).length < packfileHeaderBytes := by
    rw [length]
    omega
  have uuid : ∃ uuidData, headerReadUuid pf.header (packHeader pf buffer ++ tail) =
      .ok uuidData := by
    have within : ¬(packHeader pf buffer ++ tail).length <
        packfileHeaderBytes + headerByte pf.header 17 := by
      rw [length, lawful.uuidSize]
      omega
    rw [← lawful.uuidSize] at inside
    rcases lawful.uuidType with none | some
    · refine ⟨[], ?_⟩
      simp only [headerReadUuid, none, if_true]
    refine ⟨((packHeader pf buffer ++ tail).drop (packfileHeaderBytes * wordsize)).take
      (headerByte pf.header 17), ?_⟩
    simp only [headerReadUuid, some, one_ne_zero, if_false, if_true, within,
      inside.not_gt, and_false]
  rcases uuid with ⟨uuidData, read⟩
  refine ⟨uuidData, ?_⟩
  rw [headerUnpack, if_neg long, taken]
  dsimp only
  rw [lawful.validated, ok_bind, read, ok_bind, lawful.uuidSize]

theorem length_storeSegmentEntry (p : Placed P) :
    (storeSegmentEntry p).length = (3 + sizeString p.segment.name) * wordsize := by
  simp only [storeSegmentEntry, length_append, length_storeOpcode, length_storeString,
    length_storeCount]
  unfold wordsize
  omega

theorem length_entries {placed : List (Placed P)} {segments : List (Segment P)}
    (same : placed.map Placed.segment = segments) :
    (placed.flatMap storeSegmentEntry).length = entriesSize segments * wordsize := by
  have sizes := foldl_sizes length_storeSegmentEntry placed 0
  rw [entriesSize, ← same, foldl_map, sizes, Nat.zero_mul, zero_add]

variable [DecidableEq P] {loader : Loader} {pbcMajor pbcMinor start : Nat} {w : World P}
  {pf : PackFile P} {before bytes : List UInt8} {sized : Sized P}

/-- Where the first segment starts. -/
def firstOffset (pf : PackFile P) : Nat :=
  alignSize (1 + (segmentHeaderSize + pf.data.length) + entriesSize (sortSegs pf.segments)) +
    (headerSize pf / wordsize + 4)

omit [DecidableEq P] in
theorem firstOffset_even (pf : PackFile P) : firstOffset pf % 2 = 0 := by
  have directory := alignSize_even
    (1 + (segmentHeaderSize + pf.data.length) + entriesSize (sortSegs pf.segments))
  have header := headerSize_multiple pf
  unfold firstOffset wordsize
  omega

theorem packFileSize_spec (distinct : ((sortSegs pf.segments).map Segment.address).Nodup) :
    ∃ sized bytes, packFileSize w pf = .ok sized ∧
      sized.segments.map Placed.segment = sortSegs pf.segments ∧
      Lies loader.header w (firstOffset pf) sized.segments bytes sized.size ∧
      sized.size = sized.dirOpCount + (headerSize pf / wordsize + 4) := by
  rcases layOut_spec loader.header w (headerSize pf / wordsize + 4)
    (alignSize (1 + (segmentHeaderSize + pf.data.length) + entriesSize (sortSegs pf.segments)))
    (sortSegs pf.segments) with ⟨placed, bytes, total, laid, same, lies⟩
  have noted : recorded placed = placed := by
    rw [← same, map_map] at distinct
    exact recorded_of_nodup distinct
  have even : alignSize total = total := by
    have stop := lies.even (firstOffset_even pf)
    have header := headerSize_multiple pf
    unfold wordsize at stop
    unfold alignSize
    rw [if_pos (by omega), add_zero]
  refine ⟨{ segments := placed, dirOpCount := total,
            size := headerSize pf / wordsize + 4 + alignSize total }, bytes, ?_, same, ?_, ?_⟩
  · rw [packFileSize]
    simp only [directoryPackedSize, laid, ok_bind, noted]
  · rw [even, add_comm]
    exact lies
  · rw [even, add_comm]

/-- What is written before the segments. -/
def front (pf : PackFile P) (sized : Sized P) (buffer : List UInt8) : List UInt8 :=
  packHeader pf buffer ++ dirFormat ++ (defaultPack sized.dirOpCount pf.itype pf.id pf.data ++
    (storeCount sized.segments.length ++ sized.segments.flatMap storeSegmentEntry))

/-- The directory behind its format, and the segments. -/
def directoryBytes (pf : PackFile P) (sized : Sized P) (buffer bytes : List UInt8) : List UInt8 :=
  defaultPack sized.dirOpCount pf.itype pf.id pf.data ++ (storeCount sized.segments.length ++
    (sized.segments.flatMap storeSegmentEntry ++ (zeros (front pf sized buffer).length ++ bytes)))

omit [DecidableEq P] in
theorem length_front {sized : Sized P} {buffer : List UInt8}
    (length : pf.header.length = packfileHeaderBytes) (enough : headerSize pf ≤ buffer.length)
    (same : sized.segments.map Placed.segment = sortSegs pf.segments) :
    (align16 (front pf sized buffer)).length = firstOffset pf * wordsize := by
  have header := headerSize_multiple pf
  have start : (packHeader pf buffer ++ dirFormat).length =
      (headerSize pf / wordsize + 4) * wordsize := by
    rw [length_append, length_packHeader length enough, length_dirFormat]
    unfold wordsize
    omega
  have multiple : (packHeader pf buffer ++ dirFormat).length % 16 = 0 := by
    rw [start]
    unfold wordsize
    omega
  have behind : (defaultPack sized.dirOpCount pf.itype pf.id pf.data ++
      (storeCount sized.segments.length ++ sized.segments.flatMap storeSegmentEntry)).length =
      (1 + (segmentHeaderSize + pf.data.length) + entriesSize (sortSegs pf.segments)) *
        wordsize := by
    rw [length_append, length_append, length_defaultPack, length_storeCount, length_entries same]
    unfold wordsize
    omega
  rw [front, align16_append multiple, length_append, start, length_align16_mul behind,
    ← add_mul, firstOffset, add_comm]

theorem packFilePack_spec {sized : Sized P} {bytes buffer : List UInt8}
    (length : pf.header.length = packfileHeaderBytes) (enough : headerSize pf ≤ buffer.length)
    (same : sized.segments.map Placed.segment = sortSegs pf.segments)
    (lies : Lies loader.header w (firstOffset pf) sized.segments bytes sized.size)
    (size : sized.size = sized.dirOpCount + (headerSize pf / wordsize + 4))
    (fits : sized.size * wordsize < 2 ^ 31) : packFilePack loader.header w pf sized buffer =
        .ok (align16 (front pf sized buffer) ++ bytes) ∧
      (align16 (front pf sized buffer) ++ bytes).length = sized.size * wordsize := by
  have start := length_front length enough same
  have total : (align16 (front pf sized buffer) ++ bytes).length = sized.size * wordsize := by
    rw [length_append, start, lies.length fits]
  have even := lies.even (firstOffset_even pf)
  have header := headerSize_multiple pf
  have multiple : (align16 (front pf sized buffer) ++ bytes).length % 16 = 0 := by
    rw [total]
    unfold wordsize
    omega
  have packed : directoryPack loader.header w sized.segments
      (packHeader pf buffer ++ dirFormat ++ defaultPack sized.dirOpCount pf.itype pf.id pf.data) =
      .ok (align16 (front pf sized buffer) ++ bytes) := by
    rw [directoryPack, append_assoc (packHeader pf buffer ++ dirFormat)]
    exact packSegments_spec lies (firstOffset_even pf) fits start
  have used : (sized.size * wordsize - (headerSize pf + 4 * wordsize)) / wordsize =
      sized.dirOpCount := by
    rw [size]
    unfold wordsize
    omega
  refine ⟨?_, total⟩
  rw [packFilePack, packed, ok_bind]
  dsimp only
  rw [align16_of_aligned multiple, total, length_append, length_packHeader length enough,
    length_dirFormat, used, if_neg (not_not.mpr rfl)]

theorem drop_fileOffset
    (lies : Lies loader.header w start sized.segments bytes sized.size) (aligned : start % 2 = 0)
    (length : before.length = start * wordsize) (fits : sized.size * wordsize < 2 ^ 31)
    {p : Placed P} (member : p ∈ sized.segments) :
    p.fileOffset % 2 = 0 ∧ p.fileOffset + p.opCount ≤ sized.size ∧
      segmentPackedSize w p.segment = .ok p.opCount ∧
      ∃ content behind, contentPack loader.header w p.segment.content = .ok content ∧
        (before ++ bytes).drop (p.fileOffset * wordsize) =
          segmentBytes p.segment p.opCount content ++ behind ∧
        (segmentBytes p.segment p.opCount content).length = p.opCount * wordsize := by
  rcases lies.split aligned fits member with
    ⟨even, within, size, content, skipped, behind, packed, split, place⟩
  have reaches : (before ++ skipped).length = p.fileOffset * wordsize := by
    rw [length_append, length, place]
  have own : p.opCount * wordsize < 2 ^ 31 := by
    unfold wordsize at *
    omega
  refine ⟨even, within, size, content, behind, packed, ?_, length_segmentBytes size packed own⟩
  rw [split, ← append_assoc, drop_left' reaches]

theorem directoryUnpack_pack (lawful : w.Lawful) (loads : loader.For w)
    (lies : Lies loader.header w start sized.segments bytes sized.size) (aligned : start % 2 = 0)
    (length : (align16 before).length = start * wordsize) (fits : sized.size * wordsize < 2 ^ 31)
    (few : sized.segments.length < 2 ^ 64)
    (code : ∀ p, sized.segments.head? = some p → p.segment.type = .bytec)
    (valid : ∀ p ∈ sized.segments, p.segment.content.Lawful loader)
    (belongs : ∀ p ∈ sized.segments, p.segment.Belongs loader (sized.segments.map Placed.segment))
    (heap : List Created) : ∃ found last, directoryUnpack loader (align16 before ++ bytes) heap
        (storeCount sized.segments.length ++ (sized.segments.flatMap storeSegmentEntry ++
          (zeros before.length ++ bytes))) = .ok (found, last, []) ∧
      List.Forall₂ (fun p l => SameSegment w last p.segment l) sized.segments found := by
  have total : (align16 before ++ bytes).length = sized.size * wordsize := by
    rw [length_append, length, lies.length fits]
  have short : (align16 before ++ bytes).length < 2 ^ 31 := by
    rw [total]
    exact fits
  have points : ∀ p ∈ sized.segments, p.fileOffset < 2 ^ 64 ∧ ∃ tail,
      (align16 before ++ bytes).drop (p.fileOffset * wordsize) = storeCount p.opCount ++ tail := by
    intro p member
    rcases drop_fileOffset lies aligned length fits member with
      ⟨_, within, _, content, behind, _, dropped, _⟩
    rcases segmentBytes_starts p.segment p.opCount content with ⟨tail, starts⟩
    refine ⟨by unfold wordsize at fits; omega, tail ++ behind, ?_⟩
    rw [dropped, starts, append_assoc]
  rcases unpackDirectoryEntries_store points (.inr code) (zeros before.length ++ bytes) with
    ⟨directory, unpacked, listed⟩
  have padded := @padCursor_zeros before bytes (align16 before ++ bytes)
    (by rw [align16_eq, append_assoc]) short
  have attached : ∀ p ∈ sized.segments,
      Attached loader directory (text p.segment.name) p.segment.content :=
    fun p member => attached_of_belongs listed (belongs p member)
  rcases unpackSegments_pack lawful loads lies listed valid attached aligned length
    (show align16 before ++ bytes = align16 before ++ (bytes ++ []) by rw [append_nil]) short
    fits heap with ⟨found, last, read, _, same⟩
  rw [append_nil] at read
  refine ⟨found, last, ?_, same⟩
  rw [directoryUnpack, fetchSize_store few, ok_bind]
  dsimp only
  rw [unpacked, ok_bind]
  rw [padded, ok_bind, read]

section
variable (lawful : pf.Lawful loader pbcMajor pbcMinor)
include lawful

theorem packFileUnpack_pack (lawfulWorld : w.Lawful) (loads : loader.For w)
    {buffer : List UInt8} (enough : headerSize pf ≤ buffer.length)
    (same : sized.segments.map Placed.segment = sortSegs pf.segments)
    (permuted : (sortSegs pf.segments).Perm pf.segments)
    (code : ∀ seg, (sortSegs pf.segments).head? = some seg → seg.type = .bytec)
    (lies : Lies loader.header w (firstOffset pf) sized.segments bytes sized.size)
    (fits : sized.size * wordsize < 2 ^ 31) (heap : List Created) :
    ∃ loaded rest, packFileUnpack loader pbcMajor pbcMinor heap
        (align16 (front pf sized buffer) ++ bytes) = .ok (loaded, rest) ∧
      List.Forall₂ (fun p l => SameSegment w loaded.heap p.segment l) sized.segments
        loaded.segments := by
  have start := length_front lawful.length_header enough same
  have total : (align16 (front pf sized buffer) ++ bytes).length = sized.size * wordsize := by
    rw [length_append, start, lies.length fits]
  have isSegment : ∀ p ∈ sized.segments, p.segment ∈ pf.segments := by
    intro p member
    rw [← permuted.mem_iff, ← same]
    exact mem_map_of_mem member
  have entries : 32 * sized.segments.length ≤
      (sized.segments.flatMap storeSegmentEntry).length := by
    apply length_le_flatMap
    intro p
    have := length_storeString_pos p.segment.name
    rw [length_storeString] at this
    rw [length_storeSegmentEntry]
    unfold wordsize at *
    omega
  have ends := lies.le
  have first := le_alignSize
    (1 + (segmentHeaderSize + pf.data.length) + entriesSize (sortSegs pf.segments))
  have listed := length_entries same
  have parts : sized.segments.length < 2 ^ 64 ∧ pf.data.length < 2 ^ 64 := by
    unfold firstOffset at ends
    unfold wordsize at *
    omega
  rcases directoryUnpack_pack lawfulWorld loads lies (firstOffset_even pf) start fits parts.1
    (by
      intro p isFirst
      apply code
      rw [← same, head?_map, isFirst]
      rfl)
    (fun p member => lawful.contents _ (isSegment p member))
    (by
      intro p member
      rw [same]
      exact (lawful.belongs _ (isSegment p member)).perm permuted) heap with
    ⟨found, last, unpacked, areSame⟩
  have shape : align16 (front pf sized buffer) ++ bytes =
      packHeader pf buffer ++ (dirFormat ++ directoryBytes pf sized buffer bytes) := by
    rw [align16_eq, directoryBytes]
    generalize zeros (front pf sized buffer).length = pad
    rw [front]
    simp only [append_assoc]
  have ended : padCursor (align16 (front pf sized buffer) ++ bytes) [] = .ok [] := by
    have even := lies.even (firstOffset_even pf)
    have none : zeros (align16 (front pf sized buffer) ++ bytes).length = [] := by
      rw [total, zeros, if_pos (by unfold wordsize; omega), replicate_zero]
    have whole : align16 (front pf sized buffer) ++ bytes =
        (align16 (front pf sized buffer) ++ bytes) ++
          (zeros (align16 (front pf sized buffer) ++ bytes).length ++ []) := by
      rw [none, append_nil, append_nil]
    have padded := padCursor_zeros whole (by rw [total]; exact fits)
    rw [none] at padded
    exact padded
  have inside : packfileHeaderBytes * wordsize + pf.uuidData.length ≤
      (packHeader pf buffer ++ (dirFormat ++ directoryBytes pf sized buffer bytes)).length := by
    have long := permuted.length_eq
    rw [← same, length_map] at long
    have two := lawful.long
    have header := le_headerSize pf
    rw [← shape, total]
    unfold firstOffset segmentHeaderSize packfileHeaderBytes wordsize at *
    omega
  rcases @headerUnpack_pack _ loader pbcMajor pbcMinor pf lawful buffer
    (dirFormat ++ directoryBytes pf sized buffer bytes) enough inside with ⟨uuidData, readHeader⟩
  rw [← shape] at readHeader
  have behind : (align16 (front pf sized buffer) ++ bytes).drop
      (packfileHeaderBytes + pf.uuidData.length +
        if (packfileHeaderBytes + pf.uuidData.length) % 16 = 0 then 0
        else 16 - (packfileHeaderBytes + pf.uuidData.length) % 16) =
      dirFormat ++ directoryBytes pf sized buffer bytes := by
    rw [shape]
    exact drop_left' (length_packHeader lawful.length_header enough)
  refine ⟨{ header := pf.header, uuidData, itype := pf.itype, id := pf.id, data := pf.data,
            segments := found, heap := last }, [], ?_, areSame⟩
  rw [packFileUnpack, readHeader, ok_bind]
  dsimp only
  rw [behind]
  rw [dirFormat, append_assoc, append_assoc, append_assoc, fetchOpcode_store, ok_bind]
  rw [if_neg (not_not.mpr rfl), fetchOpcode_store, ok_bind]
  rw [fetchOpcode_store, ok_bind]
  rw [fetchOpcode_store, ok_bind, directoryBytes]
  rw [defaultUnpack_pack parts.2, ok_bind]
  rw [unpacked, ok_bind]
  rw [ended, ok_bind]

theorem RoundTrips.keeps (comesBack : RoundTrips loader pbcMajor pbcMinor w pf) :
    KeepsSegments pf.segments :=
  (sortSegs_perm_iff lawful.distinct lawful.long).mp comesBack.1

/-- A packfile that is shorter than an `int` can say comes back when no segment is moved. -/
theorem roundTrips_of_keeps (lawfulWorld : w.Lawful) (loads : loader.For w)
    (keeps : KeepsSegments pf.segments)
    (short : ∀ sized, packFileSize w pf = .ok sized → sized.size * wordsize < 2 ^ 31) :
    RoundTrips loader pbcMajor pbcMinor w pf := by
  have permuted := (sortSegs_perm_iff lawful.distinct lawful.long).mpr keeps
  rcases @packFileSize_spec _ _ loader w pf ((permuted.map _).nodup_iff.mpr lawful.distinct) with
    ⟨sized, bytes, computed, same, lies, size⟩
  have fits := short sized computed
  have code : ∀ seg, (sortSegs pf.segments).head? = some seg → seg.type = .bytec := by
    intro seg isFirst
    rcases sortBytecode_front lawful.code with ⟨front, atFront, isCode⟩
    rw [sortSegs_of_keeps keeps, head?_eq_getElem?, atFront] at isFirst
    cases isFirst
    exact isCode
  refine ⟨permuted, sized, computed, same ▸ permuted, fun buffer heap room => ?_⟩
  have ends := lies.le
  have enough : headerSize pf ≤ buffer.length := by
    unfold firstOffset at ends
    unfold wordsize at *
    omega
  have start := @length_front _ pf sized buffer lawful.length_header enough same
  rcases @packFilePack_spec _ _ loader w pf sized bytes buffer lawful.length_header enough same lies
    size fits with ⟨packed, length⟩
  refine ⟨_, packed, length, ?_, packFileUnpack_pack lawful lawfulWorld loads enough same permuted
    code lies fits heap⟩
  intro p member
  rcases drop_fileOffset lies (firstOffset_even pf) start fits member with
    ⟨even, _, ownSize, content, behind, ownPacked, dropped, ownLength⟩
  refine ⟨by unfold wordsize; omega, ownSize, content, ownPacked, ?_, ownLength⟩
  rw [dropped, take_left' ownLength]

end

/-- A packfile comes back exactly when `sort_segs` keeps its segments, as long as it is shorter
than an `int` can say. -/
theorem packFile_roundTrips (lawful : pf.Lawful loader pbcMajor pbcMinor)
    (lawfulWorld : w.Lawful) (loads : loader.For w) :
    (RoundTrips loader pbcMajor pbcMinor w pf → KeepsSegments pf.segments) ∧
      (KeepsSegments pf.segments →
        (∀ sized, packFileSize w pf = .ok sized → sized.size * wordsize < 2 ^ 31) →
          RoundTrips loader pbcMajor pbcMinor w pf) :=
  ⟨fun comesBack => comesBack.keeps lawful,
    fun keeps short => roundTrips_of_keeps lawful lawfulWorld loads keeps short⟩

namespace Example

/-- The only op library. -/
def coreOps : OpLib where
  name := [99, 111, 114, 101, 95, 111, 112, 115]
  majorVersion := 4
  minorVersion := 6
  patchVersion := 0
  opCount := 1110

/-- Names are ASCII, where characters are bytes. -/
def nativeLoader : Loader where
  header := Ring.fileHeader
  vtableMax := Ring.world.vtableMax
  types := Ring.world.thaw
  loadLib name := if name = coreOps.name then some coreOps else none
  codeName name suffix := name.map fun text => (text.1, text.2.take (text.2.length - suffix))
  sameName first second := first = second
  shown name := (name.map fun text => cString text.2).getD ""
  shownMemory _ := ""

/-- An ASCII string of few characters. -/
def ascii (bytes : List UInt8) (few : bytes.length < 2 ^ 63) : Option PStr :=
  some { encoding := .ascii, constant := false, private7 := false, bytes, addressable := few }

def code : Segment Bool where
  address := 0
  name := ascii [104, 101, 108, 108, 111] (by decide)
  itype := 0
  id := 0
  data := [0, 1]
  content := .bytec { mainSub := -1, opCount := 1, libdeps := []
                      libs := [{ lib := coreOps, ops := [(0, 1)] }] }

def debug : Segment Bool where
  address := 1
  name := ascii [104, 101, 108, 108, 111, 95, 68, 66] (by decide)
  itype := 0
  id := 0
  data := [1]
  content := .debug [(0, 0)]

/-- `notes`, which nothing is known about. -/
def notes : Segment Bool where
  address := 2
  name := ascii [110, 111, 116, 101, 115] (by decide)
  itype := 0
  id := 0
  data := [5]
  content := .unknown

def constants : Segment Bool where
  address := 3
  name := ascii [99, 111, 110, 115, 116, 97, 110, 116, 115] (by decide)
  itype := 0
  id := 0
  data := []
  content := .const Ring.constTable

/-- A packfile of some segments. -/
def packFile (segments : List (Segment Bool)) : PackFile Bool where
  header := [0xfe, 0x50, 0x42, 0x43, 0x0d, 0x0a, 0x1a, 0x0a, 8, 0, 0, 4, 6, 0, 12, 0, 0, 0]
  uuidData := []
  itype := 0
  id := 0
  data := []
  segments

theorem code_lawful : code.content.Lawful nativeLoader where
  named := by decide
  loads := by
    intro entry member
    rw [mem_singleton.mp member]
    rfl
  ops := by
    intro entry isLib tag isOp
    rw [mem_singleton.mp isLib] at isOp ⊢
    rw [mem_singleton.mp isOp]
    decide
  distinct := nodup_singleton _
  total := rfl

theorem packFile_lawful : (packFile [code, constants, debug, notes]).Lawful nativeLoader 12 0 where
  length_header := rfl
  validated := rfl
  native := by decide
  uuidType := .inl rfl
  uuidSize := rfl
  distinct := by decide
  code := ⟨code, mem_cons_self, rfl⟩
  constants := ⟨constants, by simp [packFile], rfl⟩
  contents := by
    intro seg member
    simp only [packFile, mem_cons, not_mem_nil, or_false] at member
    rcases member with rfl | rfl | rfl | rfl
    · exact code_lawful
    · trivial
    · trivial
    · trivial
  belongs := by
    intro seg member
    simp only [packFile, mem_cons, not_mem_nil, or_false] at member
    rcases member with rfl | rfl | rfl | rfl
    · trivial
    · trivial
    · refine ⟨⟨code, mem_cons_self, by decide⟩, ?_⟩
      intro other isIn
      simp only [packFile, mem_cons, not_mem_nil, or_false] at isIn
      rcases isIn with rfl | rfl | rfl | rfl <;> decide
    · trivial

end Example

theorem packFile_roundTrips_constants_second : RoundTrips Example.nativeLoader 12 0 Ring.world
      (Example.packFile [Example.code, Example.constants, Example.debug, Example.notes]) := by
  apply (packFile_roundTrips Example.packFile_lawful Ring.lawful ⟨rfl, rfl⟩).2
  · exact .inl ⟨Example.constants, rfl, rfl⟩
  intro sized computed
  have size : (packFileSize Ring.world (Example.packFile
      [Example.code, Example.constants, Example.debug, Example.notes])).map Sized.size =
      .ok 100 := by
    decide +kernel
  rw [computed] at size
  rw [Except.ok.inj size]
  decide

/-- With the constants behind two other segments, the second of these is lost. -/
theorem not_roundTrips_constants_last :
    (sortSegs [Example.code, Example.debug, Example.notes, Example.constants]).map
        Segment.address = [0, 1, 3, 1] ∧ ¬RoundTrips Example.nativeLoader 12 0 Ring.world
        (Example.packFile [Example.code, Example.debug, Example.notes, Example.constants]) := by
  refine ⟨by decide, fun comesBack => ?_⟩
  have same := comesBack.1.map Segment.address
  revert same
  decide

end RakudoStar.Packfile
