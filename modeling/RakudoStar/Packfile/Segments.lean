import RakudoStar.Packfile.Layout

/-!
# What is unpacked of a content

Each content is unpacked as it was packed, with the cursor behind it.
-/

namespace RakudoStar.Packfile

open Freeze List RakudoStar.Except

variable {P : Type}

/-- The op libraries are found by name, and the table holds each op once. -/
structure ByteCode.Lawful (loader : Loader) (code : ByteCode) : Prop where
  named : ∀ entry ∈ code.libs, 0 ∉ entry.lib.name
  loads : ∀ entry ∈ code.libs, loader.loadLib entry.lib.name = some entry.lib
  ops : ∀ entry ∈ code.libs, ∀ tag ∈ entry.ops,
    (0 ≤ tag.2.toInt ∧ tag.2.toInt < entry.lib.opCount) ∧
      0 ≤ tag.1.toInt ∧ tag.1.toInt < code.opCount
  distinct : ((code.libs.flatMap OpMappingEntry.ops).map Prod.fst).Nodup
  total : (code.libs.flatMap OpMappingEntry.ops).length = code.opCount

theorem fetchCstring_store {s : List UInt8} (noZero : 0 ∉ s) (rest : List UInt8) :
    fetchCstring (storeCstring s ++ rest) = .ok (s, rest) := by
  have length := length_storeCstring s
  have enough := roundUpB_ge (s.length + 1)
  rw [sizeCstring_mul] at length
  have zero : replicate (sizeCstring s * wordsize - s.length) (0 : UInt8) =
      0 :: replicate (sizeCstring s * wordsize - s.length - 1) 0 := by
    rw [sizeCstring_mul, ← replicate_succ]
    congr 1
    omega
  have taken : (storeCstring s ++ rest).takeWhile (· ≠ 0) = s := by
    rw [storeCstring, zero, append_assoc, takeWhile_append_of_pos]
    · simp
    intro byte member
    have nonzero : byte ≠ 0 := fun isZero => noZero (isZero ▸ member)
    simpa using nonzero
  simp only [fetchCstring, taken]
  rw [if_neg, drop_left' length]
  rw [length_append, length]
  omega

theorem fetchSize_store {size : Nat} (fits : size < 2 ^ 64) (rest : List UInt8) :
    fetchSize (storeCount size ++ rest) = .ok (size, rest) := by
  rw [fetchSize, storeCount, fetchOpcode_store, ok_bind]
  simp only
  rw [BitVec.toNat_ofNat, Nat.mod_eq_of_lt fits]

theorem fetchKey_store (key : AnnotationsKey) (rest : List UInt8) :
    fetchKey (storeKey key ++ rest) = .ok (key, rest) := by
  have type : (key.type.setWidth 64).setWidth 32 = key.type := by
    rw [BitVec.setWidth_setWidth_of_le _ (by decide), BitVec.setWidth_eq]
  simp only [fetchKey, storeKey, append_assoc, fetchOpcode_store, ok_bind, type]

theorem unpackOps_store {lib : OpLib} {opCount : Nat} {ops : List (Word × Word)} {set : List Word}
    (valid : ∀ tag ∈ ops, (0 ≤ tag.2.toInt ∧ tag.2.toInt < lib.opCount) ∧
      0 ≤ tag.1.toInt ∧ tag.1.toInt < opCount)
    (distinct : (ops.map Prod.fst ++ set).Nodup) (rest : List UInt8) :
    ∃ last, unpackOps lib opCount ops.length set (ops.flatMap storeTag ++ rest) =
      .ok (ops, last, rest) ∧ last.Perm (ops.map Prod.fst ++ set) := by
  induction ops generalizing set with
  | nil => exact ⟨set, rfl, .refl _⟩
  | cons tag ops ih =>
    rcases valid tag mem_cons_self with ⟨⟨op, opBound⟩, idx, idxBound⟩
    rw [map_cons, cons_append, nodup_cons, mem_append, not_or] at distinct
    rcases distinct with ⟨⟨notLater, notSet⟩, distinct⟩
    have moved : (ops.map Prod.fst ++ tag.1 :: set).Perm (tag.1 :: (ops.map Prod.fst ++ set)) :=
      perm_middle
    have nodup : (ops.map Prod.fst ++ tag.1 :: set).Nodup := by
      rw [moved.nodup_iff, nodup_cons, mem_append, not_or]
      exact ⟨⟨notLater, notSet⟩, distinct⟩
    rcases ih (forall_mem_cons.mp valid).2 nodup with ⟨last, unpacked, same⟩
    refine ⟨last, ?_, same.trans moved⟩
    have opOk : ¬(tag.2.toInt < 0 ∨ tag.2.toInt ≥ lib.opCount) := by omega
    have idxOk : ¬(tag.1.toInt < 0 ∨ tag.1.toInt ≥ opCount) := by omega
    rw [flatMap_cons, storeTag, append_assoc, append_assoc, length_cons,
      unpackOps, fetchOpcode_store, ok_bind]
    dsimp only
    rw [fetchOpcode_store, ok_bind]
    simp only [opOk, idxOk, notSet, if_false, unpacked, ok_bind]

theorem unpackEntries_store {loader : Loader} {opCount : Nat} {libs : List OpMappingEntry}
    {set : List Word} (named : ∀ entry ∈ libs, 0 ∉ entry.lib.name)
    (loads : ∀ entry ∈ libs, loader.loadLib entry.lib.name = some entry.lib)
    (few : ∀ entry ∈ libs, entry.ops.length < 2 ^ 63) (valid : ∀ entry ∈ libs, ∀ tag ∈ entry.ops,
      (0 ≤ tag.2.toInt ∧ tag.2.toInt < entry.lib.opCount) ∧ 0 ≤ tag.1.toInt ∧ tag.1.toInt < opCount)
    (distinct : ((libs.flatMap OpMappingEntry.ops).map Prod.fst ++ set).Nodup) (rest : List UInt8) :
    unpackEntries loader opCount libs.length set (libs.flatMap storeEntry ++ rest) =
      .ok (libs, rest) := by
  induction libs generalizing set with
  | nil => rfl
  | cons entry libs ih =>
    rw [forall_mem_cons] at named loads few valid
    rw [flatMap_cons, map_append] at distinct
    have own : (entry.ops.map Prod.fst ++ set).Nodup := by
      rw [append_assoc] at distinct
      exact distinct.sublist ((List.Sublist.refl _).append (sublist_append_right _ _))
    rcases @unpackOps_store entry.lib opCount entry.ops set valid.1 own
      (libs.flatMap storeEntry ++ rest) with ⟨last, unpacked, same⟩
    have later : ((libs.flatMap OpMappingEntry.ops).map Prod.fst ++ last).Nodup := by
      have moved := (same.append_left ((libs.flatMap OpMappingEntry.ops).map Prod.fst)).trans
        (perm_append_comm_assoc _ _ _)
      rw [moved.nodup_iff, ← append_assoc]
      exact distinct
    rw [length_cons, flatMap_cons, unpackEntries]
    simp only [storeEntry, append_assoc, fetchCstring_store named.1, fetchOpcode_store,
      ok_bind, loads.1, ne_eq, not_true_eq_false, or_self, if_false,
      fetchCount_store few.1, unpacked, ih named.2 loads.2 few.2 valid.2 later]

theorem length_flatMap_le {α β γ : Type} {f : α → List β} {g : α → List γ}
    (smaller : ∀ value, (f value).length ≤ (g value).length) (values : List α) :
    (values.flatMap f).length ≤ (values.flatMap g).length := by
  induction values with
  | nil => exact le_refl 0
  | cons value values ih =>
    rw [flatMap_cons, flatMap_cons, length_append, length_append]
    exact add_le_add (smaller value) ih

theorem length_storeString_pos (s : Option PStr) : 0 < (storeString s).length := by
  rw [length_storeString]
  cases s with
  | none => exact Nat.zero_lt_succ _
  | some s =>
    rw [sizeString, sizeStrlen]
    unfold wordsize
    omega

theorem length_storeEntry_pos (entry : OpMappingEntry) : 0 < (storeEntry entry).length := by
  rw [length_storeEntry, sizeEntry]
  unfold wordsize
  omega

/-- Code is the same, up to the strings' addresses. -/
structure SameCode (code found : ByteCode) : Prop where
  mainSub : found.mainSub = code.mainSub
  opCount : found.opCount = code.opCount
  libdeps : found.libdeps.map text = code.libdeps.map text
  libs : found.libs = code.libs

theorem byteCodeUnpack_pack {loader : Loader} {code : ByteCode} (lawful : code.Lawful loader)
    (short : (byteCodePack code).length < 2 ^ 31) (rest : List UInt8) :
    ∃ found, byteCodeUnpack loader (byteCodePack code ++ rest) = .ok (found, rest) ∧
      SameCode code found := by
  have sizes : (code.libdeps.flatMap storeString).length +
      (code.libs.flatMap storeEntry).length ≤ (byteCodePack code).length := by
    simp only [byteCodePack, length_append]
    omega
  have fewLibdeps := length_le_flatMap length_storeString_pos code.libdeps
  have fewLibs := length_le_flatMap length_storeEntry_pos code.libs
  have fewOps : code.opCount ≤ (code.libs.flatMap storeEntry).length := by
    rw [← lawful.total]
    apply length_flatMap_le
    intro entry
    rw [length_storeEntry, sizeEntry]
    unfold wordsize
    omega
  have few : ∀ entry ∈ code.libs, entry.ops.length < 2 ^ 63 := by
    intro entry member
    have part : entry.ops.length ≤ (code.libs.flatMap OpMappingEntry.ops).length := by
      rcases append_of_mem member with ⟨before, behind, split⟩
      rw [split, flatMap_append, flatMap_cons]
      simp only [length_append]
      omega
    rw [lawful.total] at part
    omega
  rcases fetchEach_store fetchString_store code.libdeps (code.libs.flatMap storeEntry ++ rest) with
    ⟨libdeps, fetched, same⟩
  have libs := @unpackEntries_store loader code.opCount code.libs [] lawful.named lawful.loads few
    lawful.ops (by rw [append_nil]; exact lawful.distinct) rest
  have total : code.libs.foldl (fun total entry => total + entry.ops.length) 0 = code.opCount := by
    have count : ∀ (libs : List OpMappingEntry) (start : Nat),
        libs.foldl (fun total entry => total + entry.ops.length) start =
          start + (libs.flatMap OpMappingEntry.ops).length := by
      intro libs
      induction libs with
      | nil => exact fun start => rfl
      | cons entry libs ih =>
        intro start
        rw [foldl_cons, ih, flatMap_cons, length_append, add_assoc]
    rw [count, lawful.total, zero_add]
  refine ⟨{ mainSub := code.mainSub, opCount := code.opCount, libdeps, libs := code.libs }, ?_,
    rfl, rfl, ?_, rfl⟩
  · rw [byteCodeUnpack]
    simp only [byteCodePack, append_assoc, fetchOpcode_store, ok_bind,
      fetchSize_store (show code.libdeps.length < 2 ^ 64 by omega),
      fetchSize_store (show code.opCount < 2 ^ 64 by omega),
      fetchCount_store (show code.libs.length < 2 ^ 63 by omega), fetched, libs, total, ne_eq,
      not_true_eq_false, if_false]
  · change libdeps.map text = code.libdeps.map text
    rw [← forall₂_eq_eq_eq, forall₂_map_left_iff, forall₂_map_right_iff]
    exact same

end RakudoStar.Packfile

namespace RakudoStar.Packfile

open Freeze

variable {w : World P} {loader : Loader}

variable (w) in
/-- A content that was unpacked into a memory is the one that was packed. -/
inductive SameContent (last : List Created) : Content (ConstTable P) → LoadedContent → Prop where
  | unknown : SameContent last .unknown .unknown
  | const {table : ConstTable P} {found : Unpacked} {heap : List Created} {place : P → Nat}
      (num : found.num = table.num) (str : found.str.map text = table.str.map text)
      (tagMap : found.tagMap = table.tagMap)
      (pmc : found.pmc = table.pmc.map fun c => some (place c))
      (graph : Isomorphic w (table.Reached w) heap found.heap place)
      (kept : found.heap <+: last) : SameContent last (.const table) (.const found)
  | bytec {code found : ByteCode} (same : SameCode code found) :
      SameContent last (.bytec code) (.bytec found)
  | debug (mappings : List (Word × Word)) : SameContent last (.debug mappings) (.debug mappings)
  | annotations (keys : List AnnotationsKey) :
      SameContent last (.annotations keys) (.annotations keys)

variable {content : Content (ConstTable P)}

theorem SameContent.mono {heap last : List Created}
    {found : LoadedContent} (same : SameContent w heap content found) (more : heap <+: last) :
    SameContent w last content found := by
  cases same with
  | unknown => exact .unknown
  | const num str tagMap pmc graph kept => exact .const num str tagMap pmc graph (kept.trans more)
  | bytec same => exact .bytec same
  | debug mappings => exact .debug mappings
  | annotations keys => exact .annotations keys

/-- The code that a segment belongs to is found by the segment's name. -/
def Attached (loader : Loader) (directory : List Entry) (name : Name) :
    Content (ConstTable P) → Prop
  | .debug _ => attach loader directory name 3 "debug" loader.shown = .ok ()
  | .annotations _ => attach loader directory name 4 "annotations" loader.shownMemory = .ok ()
  | _ => True

/-- A content that can be unpacked. -/
def Content.Lawful (loader : Loader) : Content (ConstTable P) → Prop
  | .bytec code => code.Lawful loader
  | _ => True

/-- A loader for the types of the PMCs. -/
structure Loader.For (loader : Loader) (w : World P) : Prop where
  vtableMax : loader.vtableMax = w.vtableMax
  types : loader.types = w.thaw

variable [DecidableEq P] {directory : List Entry} {entry : Entry} {opCount : Nat}
  {bytes : List UInt8}

theorem contentUnpack_pack (lawful : w.Lawful) (loads : loader.For w)
    (type : entry.type = content.type) (valid : content.Lawful loader)
    (attached : Attached loader directory (text entry.name) content)
    (packed : contentPack loader.header w content = .ok bytes) {size : Nat}
    (sized : contentPackedSize w content = .ok size) (fits : size * wordsize < 2 ^ 31)
    (heap : List Created) (rest : List UInt8) :
    ∃ found last, contentUnpack loader directory entry heap (bytes ++ rest) =
      .ok (found, last, rest) ∧ heap <+: last ∧ SameContent w last content found := by
  have short : bytes.length < 2 ^ 31 := by
    rcases contentPack_spec loader.header w content with
      ⟨sameSize, sameBytes, sizedSame, packedSame, length⟩
    cases sizedSame.symm.trans sized
    cases packedSame.symm.trans packed
    rw [length fits]
    exact fits
  cases content with
  | unknown =>
    cases packed
    refine ⟨.unknown, heap, ?_, List.prefix_refl _, .unknown⟩
    rw [contentUnpack, type]
    rfl
  | const table =>
    rcases pack_spec loader.header w table with ⟨finals, size, _, _, isPacked, _⟩
    rw [contentPack, isPacked] at packed
    cases packed
    rcases unpack_pack loader.header lawful table isPacked (by omega) heap rest with
      ⟨found, place, unpacked, num, str, tagMap, pmc, graph⟩
    refine ⟨.const found, found.heap, ?_, graph.kept,
      .const num str tagMap pmc graph (List.prefix_refl _)⟩
    rw [contentUnpack, type]
    change (unpack loader.header loader.vtableMax loader.types heap _ >>= _) = _
    rw [loads.vtableMax, loads.types, unpacked, Except.ok_bind]
  | bytec code =>
    cases packed
    rcases byteCodeUnpack_pack valid short rest with ⟨found, unpacked, same⟩
    refine ⟨.bytec found, heap, ?_, List.prefix_refl _, .bytec same⟩
    rw [contentUnpack, type]
    change (byteCodeUnpack loader _ >>= _) = _
    rw [unpacked, Except.ok_bind]
  | debug mappings =>
    have few : mappings.length < 2 ^ 31 := by
      cases sized
      unfold debugPackedSize wordsize at fits
      omega
    cases packed
    refine ⟨.debug mappings, heap, ?_, List.prefix_refl _, .debug mappings⟩
    rw [contentUnpack, type, debugPack_eq few, List.append_assoc]
    change (fetchCount _ >>= _) = _
    rw [fetchCount_store (by omega), Except.ok_bind]
    dsimp only
    rw [fetchEach_eq fetchTag_store, Except.ok_bind]
    rw [show attach loader directory (text entry.name) 3 "debug" loader.shown = .ok () from
      attached, Except.ok_bind]
  | annotations keys =>
    have few : keys.length < 2 ^ 31 := by
      cases sized
      unfold annotationsPackedSize wordsize at fits
      omega
    cases packed
    refine ⟨.annotations keys, heap, ?_, List.prefix_refl _, .annotations keys⟩
    rw [contentUnpack, type, annotationsPack, List.append_assoc]
    change (fetchCount _ >>= _) = _
    rw [fetchCount_store (by omega), Except.ok_bind]
    dsimp only
    rw [fetchEach_eq fetchKey_store, Except.ok_bind]
    rw [show attach loader directory (text entry.name) 4 "annotations" loader.shownMemory =
      .ok () from attached, Except.ok_bind]

theorem zeros_append {before : List UInt8} (aligned : before.length % 16 = 0)
    (own : List UInt8) : zeros (before ++ own).length = zeros own.length := by
  have same : (before ++ own).length % 16 = own.length % 16 := by
    rw [List.length_append, Nat.add_mod, aligned, zero_add, Nat.mod_mod]
  rw [zeros, zeros, same]

theorem padCursor_zeros {before rest whole : List UInt8}
    (split : whole = before ++ (zeros before.length ++ rest)) (short : whole.length < 2 ^ 31) :
    padCursor whole (zeros before.length ++ rest) = .ok rest := by
  have total : whole.length = before.length + ((zeros before.length).length + rest.length) := by
    rw [split, List.length_append, List.length_append]
  have inside : ¬(((before.length + (zeros before.length).length : Nat) : Int) < 0 ∨
      whole.length < before.length + (zeros before.length).length) := by
    omega
  have pad : (zeros before.length).length =
      if before.length % 16 = 0 then 0 else 16 - before.length % 16 := by
    rw [zeros, List.length_replicate]
  have offset : whole.length - (zeros before.length ++ rest).length = before.length := by
    rw [total, List.length_append, Nat.add_sub_cancel]
  have small : ((before.length : Nat) : Int).bmod (2 ^ 32) = before.length := by
    apply Int.bmod_eq_of_le <;> omega
  have moved : (before.length : Int) + (if (before.length : Int).tmod 16 = 0 then 0
      else 16 - (before.length : Int).tmod 16) =
      ((before.length + (zeros before.length).length : Nat) : Int) := by
    rw [Int.tmod_eq_emod_of_nonneg (Int.natCast_nonneg _), pad]
    split <;> split <;> omega
  have multiple : (before.length + (zeros before.length).length) / wordsize * wordsize =
      before.length + (zeros before.length).length := by
    rw [pad]
    unfold wordsize
    split <;> omega
  unfold padCursor
  simp only [offset, small, moved, Int.toNat_natCast, multiple, if_neg inside]
  rw [split, ← List.append_assoc, List.drop_left' List.length_append]

theorem defaultUnpack_pack {itype id : Word} {data : List Word}
    (few : data.length < 2 ^ 64) (rest : List UInt8) :
    defaultUnpack (defaultPack opCount itype id data ++ rest) =
      .ok ((BitVec.ofNat 64 opCount, itype, id, data), rest) := by
  rw [defaultUnpack]
  simp only [defaultPack, List.append_assoc, storeCount, fetchOpcode_store, Except.ok_bind]
  rw [show storeOpcode (BitVec.ofNat 64 data.length) = storeCount data.length from rfl]
  simp only [fetchSize_store few, Except.ok_bind, fetchEach_eq fetchOpcode_store]

variable (w) in
/-- A segment that was unpacked is the one that was packed. -/
structure SameSegment (last : List Created) (seg : Segment P) (found : Loaded) : Prop where
  type : found.type = seg.type
  name : text found.name = text seg.name
  itype : found.itype = seg.itype
  id : found.id = seg.id
  data : found.data = seg.data
  content : SameContent w last seg.content found.content

theorem segmentUnpack_pack (lawful : w.Lawful) (loads : loader.For w)
    {seg : Segment P} {before rest whole : List UInt8}
    (type : entry.type = seg.type) (name : text entry.name = text seg.name)
    (valid : seg.content.Lawful loader)
    (attached : Attached loader directory (text seg.name) seg.content)
    (sized : segmentPackedSize w seg = .ok opCount)
    (packed : contentPack loader.header w seg.content = .ok bytes)
    (aligned : before.length % 16 = 0)
    (split : whole = before ++ (segmentBytes seg opCount bytes ++ rest))
    (short : whole.length < 2 ^ 31) (fits : opCount * wordsize < 2 ^ 31) (heap : List Created) :
    ∃ found last, segmentUnpack loader directory entry whole heap
        (segmentBytes seg opCount bytes ++ rest) = .ok (found, last, rest) ∧
      heap <+: last ∧ SameSegment w last seg found := by
  rcases Except.of_bind sized with ⟨size, contentSized, isCount⟩
  have enough := le_alignSize (segmentHeaderSize + seg.data.length + size)
  rw [Except.ok.inj isCount] at enough
  rcases contentUnpack_pack lawful loads type valid (name ▸ attached) packed contentSized
    (by unfold wordsize at *; omega) heap
    (zeros (defaultPack opCount seg.itype seg.id seg.data ++ bytes).length ++ rest) with
    ⟨content, last, unpacked, more, same⟩
  have moved : padCursor whole
      (zeros (defaultPack opCount seg.itype seg.id seg.data ++ bytes).length ++ rest) =
      .ok rest := by
    rw [← zeros_append aligned]
    apply padCursor_zeros _ short
    rw [split, segmentBytes, align16_eq, zeros_append aligned]
    simp only [List.append_assoc]
  refine ⟨{ entry with
      opCount := BitVec.ofNat 64 opCount
      itype := seg.itype
      id := seg.id
      data := seg.data
      content }, last, ?_, more, type, name, rfl, rfl, rfl, same⟩
  rw [segmentUnpack, segmentBytes, align16_eq, List.append_assoc, List.append_assoc,
    defaultUnpack_pack (by unfold wordsize at *; omega), Except.ok_bind]
  dsimp only
  rw [unpacked, Except.ok_bind]
  rw [moved, Except.ok_bind]

end RakudoStar.Packfile
