import RakudoStar.Freeze.Isomorphism
import RakudoStar.Packfile.Directory

/-!
# Packed sizes

What a segment takes up in a file is what was computed for it, as long as the file is
shorter than an `int` can say.
-/

namespace RakudoStar.Packfile

open Freeze List

variable {P α : Type} {file : List UInt8} (s : List UInt8)

@[simp]
theorem length_storeCount (count : Nat) : (storeCount count).length = wordsize :=
  length_storeOpcode _

@[simp]
theorem length_storeTag (tag : Word × Word) : (storeTag tag).length = 2 * wordsize := by
  rw [storeTag, length_append, length_storeOpcode, length_storeOpcode, two_mul]

theorem length_storeKey (key : AnnotationsKey) : (storeKey key).length = 4 * wordsize := by
  simp only [storeKey, length_append, length_storeOpcode]
  rfl

theorem sizeCstring_mul : sizeCstring s * wordsize = roundUpB (s.length + 1) :=
  rfl

theorem length_storeCstring : (storeCstring s).length = sizeCstring s * wordsize := by
  have enough := roundUpB_ge (s.length + 1)
  rw [storeCstring, length_append, length_replicate, sizeCstring_mul]
  omega

theorem foldl_sizes {store : α → List UInt8} {size : α → Nat}
    (sizes : ∀ value, (store value).length = size value * wordsize) (values : List α)
    (start : Nat) : values.foldl (fun total value => total + size value) start * wordsize =
      start * wordsize + (values.flatMap store).length := by
  induction values generalizing start with
  | nil => rfl
  | cons value values ih =>
    rw [foldl_cons, ih, flatMap_cons, length_append, sizes, add_mul, add_assoc]

theorem length_le_flatMap {store : α → List UInt8} {least : Nat}
    (long : ∀ value, least ≤ (store value).length) (values : List α) :
    least * values.length ≤ (values.flatMap store).length := by
  induction values with
  | nil => exact le_refl 0
  | cons value values ih =>
    have first := long value
    rw [flatMap_cons, length_append, length_cons, Nat.mul_succ]
    omega

theorem length_storeEntry (entry : OpMappingEntry) :
    (storeEntry entry).length = sizeEntry entry * wordsize := by
  have ops := length_flatMap_store length_storeTag entry.ops
  simp only [storeEntry, length_append, length_storeCstring, length_storeOpcode,
    length_storeCount, ops, sizeEntry]
  unfold wordsize
  omega

theorem length_byteCodePack (code : ByteCode) :
    (byteCodePack code).length = byteCodePackedSize code * wordsize := by
  have libdeps := foldl_sizes length_storeString code.libdeps 4
  have libs := foldl_sizes length_storeEntry code.libs
    (code.libdeps.foldl (fun size libdep => size + sizeString libdep) 4)
  simp only [byteCodePack, length_append, length_storeOpcode, length_storeCount, byteCodePackedSize]
  unfold wordsize at libdeps libs ⊢
  omega

theorem length_annotationsPack (keys : List AnnotationsKey) :
    (annotationsPack keys).length = annotationsPackedSize keys * wordsize := by
  have stored := length_flatMap_store length_storeKey keys
  rw [annotationsPack, length_append, length_storeCount, stored, annotationsPackedSize]
  unfold wordsize
  omega

theorem debugPack_eq {mappings : List (Word × Word)} (few : mappings.length < 2 ^ 31) :
    debugPack mappings = storeCount mappings.length ++ mappings.flatMap storeTag := by
  have same : ((mappings.length : Int).bmod (2 ^ 32)) = mappings.length := by
    apply Int.bmod_eq_of_le <;> omega
  simp only [debugPack]
  rw [same, Int.toNat_natCast, take_length, storeCount, BitVec.ofInt_natCast]

section

variable [DecidableEq P] (header : Freeze.Header) (w : World P)

theorem contentPack_spec (content : Content (ConstTable P)) :
    ∃ size bytes, contentPackedSize w content = .ok size ∧
      contentPack header w content = .ok bytes ∧
      (size * wordsize < 2 ^ 31 → bytes.length = size * wordsize) := by
  cases content with
  | unknown => exact ⟨0, [], rfl, rfl, fun _ => rfl⟩
  | const table =>
    rcases pack_spec header w table with ⟨finals, size, _, sized, packed, length⟩
    refine ⟨size, _, ?_, ?_, fun _ => length⟩
    · rw [contentPackedSize, sized]
      rfl
    · rw [contentPack, packed]
      rfl
  | bytec code => exact ⟨_, _, rfl, rfl, fun _ => length_byteCodePack code⟩
  | debug mappings =>
    refine ⟨_, _, rfl, rfl, fun fits => ?_⟩
    have few : mappings.length < 2 ^ 31 := by
      unfold debugPackedSize wordsize at fits
      omega
    have stored := length_flatMap_store length_storeTag mappings
    rw [debugPack_eq few, length_append, length_storeCount, stored, debugPackedSize]
    unfold wordsize
    omega
  | annotations keys => exact ⟨_, _, rfl, rfl, fun _ => length_annotationsPack keys⟩

end

/-- The zeros up to the next multiple of sixteen bytes. -/
def zeros (length : Nat) : List UInt8 :=
  List.replicate (if length % 16 = 0 then 0 else 16 - length % 16) 0

theorem align16_eq (file : List UInt8) : align16 file = file ++ zeros file.length :=
  rfl

theorem align16_of_aligned (aligned : file.length % 16 = 0) : align16 file = file := by
  rw [align16_eq, zeros, if_pos aligned, replicate_zero, append_nil]

theorem align16_append (aligned : file.length % 16 = 0) (behind : List UInt8) :
    align16 (file ++ behind) = file ++ align16 behind := by
  have same : (file ++ behind).length % 16 = behind.length % 16 := by
    rw [length_append, Nat.add_mod, aligned, zero_add, Nat.mod_mod]
  rw [align16_eq, align16_eq, zeros, zeros, same, append_assoc]

theorem length_align16_mul {bytes : List UInt8} {size : Nat}
    (length : bytes.length = size * wordsize) :
    (align16 bytes).length = alignSize size * wordsize := by
  rw [align16_eq, length_append, zeros, length_replicate, length]
  unfold alignSize wordsize
  split <;> split <;> omega

theorem alignSize_even (size : Nat) : alignSize size % 2 = 0 := by
  unfold alignSize
  split <;> omega

theorem le_alignSize (size : Nat) : size ≤ alignSize size :=
  Nat.le_add_right _ _

theorem length_defaultPack (opCount : Nat) (itype id : Word) (data : List Word) :
    (defaultPack opCount itype id data).length = (segmentHeaderSize + data.length) * wordsize := by
  have stored := length_flatMap_store length_storeOpcode data
  simp only [defaultPack, length_append, length_storeOpcode, length_storeCount, stored,
    segmentHeaderSize]
  unfold wordsize
  omega

/-- A segment in a file, behind a multiple of sixteen bytes. -/
def segmentBytes (seg : Segment P) (opCount : Nat) (content : List UInt8) : List UInt8 :=
  align16 (defaultPack opCount seg.itype seg.id seg.data ++ content)

section

variable [DecidableEq P] (header : Freeze.Header) (w : World P)

/-- It takes as many opcodes as its size says, its content last. -/
theorem segmentPack_spec (seg : Segment P) :
    ∃ opCount content, segmentPackedSize w seg = .ok opCount ∧ opCount % 2 = 0 ∧
      contentPack header w seg.content = .ok content ∧
      (∀ file, file.length % 16 = 0 → segmentPack header w seg opCount file =
        .ok (file ++ segmentBytes seg opCount content)) ∧ (opCount * wordsize < 2 ^ 31 →
        (segmentBytes seg opCount content).length = opCount * wordsize) := by
  rcases contentPack_spec header w seg.content with ⟨size, content, sized, packed, length⟩
  refine ⟨alignSize (segmentHeaderSize + seg.data.length + size), content, ?_, alignSize_even _,
    packed, ?_, ?_⟩
  · rw [segmentPackedSize, sized, Except.ok_bind]
  · intro file aligned
    rw [segmentPack, packed, Except.ok_bind, append_assoc, align16_append aligned]
    rfl
  intro fits
  have enough := le_alignSize (segmentHeaderSize + seg.data.length + size)
  apply length_align16_mul
  rw [length_append, length_defaultPack, length (by unfold wordsize at *; omega), ← add_mul]

end

end RakudoStar.Packfile

namespace RakudoStar.Packfile

open Freeze

variable [DecidableEq P] {header : Freeze.Header} {w : World P}

variable (header w) in
/-- Segments from an offset on, with their bytes and where they end. -/
inductive Lies : Nat → List (Placed P) → List UInt8 → Nat → Prop where
  | nil (start : Nat) : Lies start [] [] start
  | cons {start stop : Nat} {p : Placed P} {placed : List (Placed P)} {content bytes : List UInt8}
      (offset : p.fileOffset = start) (size : segmentPackedSize w p.segment = .ok p.opCount)
      (even : p.opCount % 2 = 0) (packed : contentPack header w p.segment.content = .ok content)
      (rest : Lies (start + p.opCount) placed bytes stop) :
      Lies start (p :: placed) (segmentBytes p.segment p.opCount content ++ bytes) stop

variable {placed : List (Placed P)} {bytes : List UInt8} {start stop : Nat}

theorem Lies.le (lies : Lies header w start placed bytes stop) : start ≤ stop := by
  induction lies with
  | nil start => exact le_rfl
  | cons offset size even packed rest ih =>
    exact le_trans (Nat.le_add_right _ _) ih

theorem Lies.even
    (lies : Lies header w start placed bytes stop) (aligned : start % 2 = 0) : stop % 2 = 0 := by
  induction lies with
  | nil start => exact aligned
  | cons offset size even packed rest ih =>
    apply ih
    rw [Nat.add_mod, aligned, even]

theorem length_segmentBytes {seg : Segment P} {opCount : Nat} {content : List UInt8}
    (size : segmentPackedSize w seg = .ok opCount)
    (packed : contentPack header w seg.content = .ok content) (fits : opCount * wordsize < 2 ^ 31) :
    (segmentBytes seg opCount content).length = opCount * wordsize := by
  rcases segmentPack_spec header w seg with ⟨same, own, sized, _, ownPacked, _, length⟩
  cases sized.symm.trans size
  cases ownPacked.symm.trans packed
  exact length fits

theorem Lies.length
    (lies : Lies header w start placed bytes stop) (fits : stop * wordsize < 2 ^ 31) :
    start * wordsize + bytes.length = stop * wordsize := by
  induction lies with
  | nil start => rfl
  | @cons start stop p placed content bytes offset size even packed rest ih =>
    have others := ih fits
    rw [List.length_append, length_segmentBytes size packed (by unfold wordsize at *; omega),
      ← others, add_mul, add_assoc]

theorem Lies.split (lies : Lies header w start placed bytes stop) (aligned : start % 2 = 0)
    (fits : stop * wordsize < 2 ^ 31) {p : Placed P} (member : p ∈ placed) :
    p.fileOffset % 2 = 0 ∧ p.fileOffset + p.opCount ≤ stop ∧
      segmentPackedSize w p.segment = .ok p.opCount ∧
      ∃ content before behind, contentPack header w p.segment.content = .ok content ∧
        bytes = before ++ (segmentBytes p.segment p.opCount content ++ behind) ∧
        start * wordsize + before.length = p.fileOffset * wordsize := by
  induction lies with
  | nil start => cases member
  | @cons start stop q placed content bytes offset size even packed rest ih =>
    rcases List.mem_cons.mp member with rfl | later
    · refine ⟨offset ▸ aligned, ?_, size, content, [], bytes, packed, rfl, ?_⟩
      · rw [offset]
        exact rest.le
      · rw [offset]
        rfl
    have next : (start + q.opCount) % 2 = 0 := by rw [Nat.add_mod, aligned, even]
    rcases ih next fits later with
      ⟨isEven, within, ownSize, own, before, behind, ownPacked, same, place⟩
    refine ⟨isEven, within, ownSize, own, segmentBytes q.segment q.opCount content ++ before,
      behind, ownPacked, ?_, ?_⟩
    · rw [same, List.append_assoc]
    · rw [List.length_append, length_segmentBytes size packed (by unfold wordsize at *; omega),
        ← place, add_mul, add_assoc]

variable (header w) in
theorem layOut_spec (dirOffset size : Nat) (segments : List (Segment P)) :
    ∃ placed bytes total, layOut w dirOffset size segments = .ok (placed, total) ∧
      placed.map Placed.segment = segments ∧
      Lies header w (size + dirOffset) placed bytes (total + dirOffset) := by
  induction segments generalizing size with
  | nil => exact ⟨[], [], size, rfl, rfl, .nil _⟩
  | cons seg segments ih =>
    rcases segmentPack_spec header w seg with ⟨opCount, content, sized, even, packed, _⟩
    rcases ih (size + opCount) with ⟨placed, bytes, total, laid, same, lies⟩
    refine ⟨{ segment := seg, fileOffset := size + dirOffset, opCount } :: placed,
      segmentBytes seg opCount content ++ bytes, total, ?_, ?_, ?_⟩
    · rw [layOut, sized, Except.ok_bind]
      simp only [laid, Except.ok_bind]
    · rw [List.map_cons, same]
    · rw [add_right_comm] at lies
      exact .cons rfl sized even packed lies

omit [DecidableEq P] in
theorem recorded_of_nodup
    (distinct : (placed.map fun p => p.segment.address).Nodup) : recorded placed = placed := by
  rw [recorded]
  conv_rhs => rw [← List.map_id placed]
  apply List.map_congr_left
  intro p member
  have present : ∃ q ∈ placed.reverse, decide (q.segment.address = p.segment.address) = true :=
    ⟨p, List.mem_reverse.mpr member, decide_eq_true rfl⟩
  rcases Option.isSome_iff_exists.mp (List.find?_isSome.mpr present) with ⟨q, found⟩
  have same : q.segment.address = p.segment.address := by
    simpa only [decide_eq_true_eq] using List.find?_some found
  have isIn := List.mem_reverse.mp (List.mem_of_find?_eq_some found)
  rw [found, Option.getD_some, id]
  exact List.inj_on_of_nodup_map distinct isIn member same

theorem packSegments_spec (lies : Lies header w start placed bytes stop) (aligned : start % 2 = 0)
    (fits : stop * wordsize < 2 ^ 31) {file : List UInt8}
    (length : file.length = start * wordsize) :
    packSegments header w placed file = .ok (file ++ bytes) := by
  induction lies generalizing file with
  | nil start => rw [packSegments, List.append_nil]
  | @cons start stop p placed content bytes offset size even packed rest ih =>
    rcases segmentPack_spec header w p.segment with ⟨same, own, sized, _, ownPacked, packs, _⟩
    cases sized.symm.trans size
    cases ownPacked.symm.trans packed
    have ends := rest.le
    have multiple : file.length % 16 = 0 := by
      unfold wordsize at length
      omega
    have next : (file ++ segmentBytes p.segment p.opCount content).length =
        (start + p.opCount) * wordsize := by
      rw [List.length_append, length, length_segmentBytes size packed
        (by unfold wordsize at *; omega), add_mul]
    rw [packSegments, packs file multiple, Except.ok_bind]
    rw [ih (by rw [Nat.add_mod, aligned, even]) fits next, List.append_assoc]

end RakudoStar.Packfile
