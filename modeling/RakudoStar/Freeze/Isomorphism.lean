import RakudoStar.Freeze.Thawed

/-!
# Unpacking the constants

The buffers are thawed one after the other into the same memory; the lists that come of it are
the tables that later constants refer to.
-/

namespace RakudoStar.Freeze

open Packfile List RakudoStar.Except

theorem fetchEach_store {α : Type} {fetch : List UInt8 → Except Fault (α × List UInt8)}
    {store : α → List UInt8} {same : α → α → Prop}
    (fetches : ∀ value rest, ∃ found, fetch (store value ++ rest) = .ok (found, rest) ∧
      same found value) (values : List α) (rest : List UInt8) :
    ∃ found, fetchEach fetch values.length (values.flatMap store ++ rest) = .ok (found, rest) ∧
      List.Forall₂ same found values := by
  induction values with
  | nil => exact ⟨[], rfl, .nil⟩
  | cons value values ih =>
    rcases ih with ⟨others, fetched, areSame⟩
    rcases fetches value (values.flatMap store ++ rest) with ⟨found, first, isSame⟩
    refine ⟨found :: others, ?_, .cons isSame areSame⟩
    rw [flatMap_cons, append_assoc, length_cons, fetchEach, first, ok_bind]
    simp only [fetched, ok_bind]

theorem fetchCount_store {count : Nat} (fits : count < 2 ^ 63) (rest : List UInt8) :
    fetchCount (storeCount count ++ rest) = .ok (count, rest) := by
  have value : (BitVec.ofNat 64 count).toNat = count := by
    rw [BitVec.toNat_ofNat, Nat.mod_eq_of_lt (by omega)]
  rw [fetchCount, storeCount, fetchOpcode_store, ok_bind]
  simp only
  rw [BitVec.toInt_eq_toNat_of_lt (by rw [value]; omega), value, Int.toNat_natCast]

theorem fetchTag_store (tag : Word × Word) (rest : List UInt8) :
    fetchTag (storeTag tag ++ rest) = .ok (tag, rest) := by
  rw [fetchTag, storeTag, append_assoc, fetchOpcode_store, ok_bind]
  simp only [fetchOpcode_store, ok_bind]

theorem fetchEach_eq {α : Type} {fetch : List UInt8 → Except Fault (α × List UInt8)}
    {store : α → List UInt8}
    (fetches : ∀ value rest, fetch (store value ++ rest) = .ok (value, rest))
    (values : List α) (rest : List UInt8) :
    fetchEach fetch values.length (values.flatMap store ++ rest) = .ok (values, rest) := by
  rcases @fetchEach_store α fetch store Eq (fun value rest => ⟨value, fetches value rest, rfl⟩)
    values rest with ⟨found, fetched, same⟩
  rw [forall₂_eq_eq_eq] at same
  rw [fetched, same]

variable {P : Type} [DecidableEq P] {header : Header} {w : World P}
  {str unpackedStr : List (Option PStr)} {i : Nat} {constants : List P} {hash : PmcHash P Nat}
  {final : Freezer P} {finals : List (Freezer P)} {place : P → Nat} {heap : List Created}
  {lists : List (List (Option Nat))}

def objectList (place : P → Nat) (final : Freezer P) : List (Option Nat) :=
  final.keys.map fun p => some (place p)

variable (place) in
/-- The lists of the constants hold the copies of what is in the hash. -/
def ListsMatch (hash : PmcHash P Nat) (lists : List (List (Option Nat))) : Prop :=
  ∀ v constno idx, rlookupPmc hash v = some (constno, idx) →
    constno < 2 ^ 64 ∧ 0 < idx ∧ idx < 2 ^ 63 ∧
      ∃ olist, lists[constno]? = some olist ∧ olist[idx - 1]? = some (some (place v))

theorem rlookupStr_unpacked (fits : str.length < 2 ^ 31)
    (same : List.Forall₂ (fun found value => text found = text value) unpackedStr str)
    {value : Option PStr} {idx : Nat} (lookup : rlookupStr str value = some idx) :
    idx < 2 ^ 63 ∧ ∃ found, unpackedStr[idx]? = some found ∧ text found = text value := by
  rcases findIdx?_eq_some_iff_getElem.mp lookup with ⟨inside, isText, _⟩
  rcases related_getElem? same (getElem?_eq_getElem inside) with ⟨found, present, sameText⟩
  rw [decide_eq_true_eq] at isText
  exact ⟨by omega, found, present, sameText.trans isText⟩

theorem tablesMatch_of_lists (fits : str.length < 2 ^ 31)
    (same : List.Forall₂ (fun found value => text found = text value) unpackedStr str)
    (listsMatch : ListsMatch place hash lists) :
    TablesMatch place (some (freezeTable str hash)) (some { strings := unpackedStr, lists }) :=
  ⟨fun _ _ lookup => rlookupStr_unpacked fits same lookup, listsMatch⟩

theorem ListsMatch.next (listsMatch : ListsMatch place hash lists) (numbered : i = lists.length)
    (fits : i < 2 ^ 64)
    (frozen : freeze header w (some (freezeTable str hash)) (some p) = some final) :
    ListsMatch place (updateBackrefHash hash final.seen i) (lists ++ [objectList place final]) := by
  have numbering := (freezes_of_frozen frozen).drains.numbered
  intro v constno idx lookup
  rcases rlookupPmc_update hash final.seen lookup with old | ⟨here, inSeen⟩
  · rcases listsMatch v constno idx old with ⟨constnoFits, positive, idxFits, olist, isList, isCopy⟩
    have inside := (List.getElem?_eq_some_iff.mp isList).1
    exact ⟨constnoFits, positive, idxFits, olist, by rw [getElem?_append_left inside, isList],
      isCopy⟩
  rcases mem_iff_getElem?.mp inSeen with ⟨k, present⟩
  have isId : idx = k + 1 := numbering.ids k _ present
  have inside := (List.getElem?_eq_some_iff.mp present).1
  have few := @Freezer.Numbered.length_le _ w _ final numbering
  have memory := w.fitsMemory
  change constno = i at here
  rw [here]
  refine ⟨fits, by omega, by omega, objectList place final, ?_, ?_⟩
  · rw [numbered, getElem?_append_right le_rfl, Nat.sub_self]
    rfl
  · rw [objectList, getElem?_map, Freezer.keys, getElem?_map, isId, Nat.add_sub_cancel, present]
    rfl

theorem unpackPmcs_spec (lawful : w.Lawful) (strFits : str.length < 2 ^ 31)
    (sameStr : List.Forall₂ (fun found value => text found = text value) unpackedStr str)
    (packs : Packs header w str i constants hash finals) (numbered : i = lists.length)
    (fits : i + constants.length < 2 ^ 63) (listsMatch : ListsMatch place hash lists)
    (located : ∀ k p, (allNormals finals)[k]? = some p → place p = heap.length + k)
    (addressable : (buffers finals).length < 2 ^ 64) (rest : List UInt8) :
    ∃ last, unpackPmcs header w.vtableMax w.thaw unpackedStr constants.length lists heap
        (buffers finals ++ rest) = .ok (lists ++ finals.map (objectList place), last, rest) ∧
      heap <+: last ∧ last.length = heap.length + (allNormals finals).length ∧
      ∀ k p, (allNormals finals)[k]? = some p →
        ∃ created, last[heap.length + k]? = some created ∧ Copied w place p created := by
  induction packs generalizing lists heap with
  | nil i hash =>
    refine ⟨heap, ?_, prefix_refl _, rfl, ?_⟩
    · rw [map_nil, append_nil]
      rfl
    · intro k p present
      cases present
  | @cons i c constants hash final finals frozen _ ih =>
    have freezes := freezes_of_frozen frozen
    have all : allNormals (final :: finals) = final.frozen ++ allNormals finals := by
      rw [allNormals, flatMap_cons, freezes.normals_eq]
      rfl
    have allBuffers : buffers (final :: finals) = storeBuf final.image ++ buffers finals :=
      flatMap_cons
    rw [allBuffers, length_append, length_storeBuf, sizeStrlen] at addressable
    rw [length_cons] at fits
    have imageFits : final.image.length < 2 ^ 64 := by
      have longer := roundUpB_ge final.image.length
      rw [← wordsize_dvd_roundUpB] at longer
      unfold wordsize at longer addressable
      omega
    have locatedHere : Located place heap.length final := by
      intro k p present
      apply located
      rw [all]
      rw [freezes.normals_eq] at present
      rw [getElem?_append_left (List.getElem?_eq_some_iff.mp present).1, present]
    rcases thaw_freeze lawful (tablesMatch_of_lists strFits sameStr listsMatch) locatedHere
        frozen with
      ⟨t, thawed, spec⟩
    have locatedLater : ∀ k p, (allNormals finals)[k]? = some p → place p = t.heap.length + k := by
      intro k p present
      rw [spec.length, add_assoc]
      apply located
      rw [all, getElem?_append_right (Nat.le_add_right _ _), Nat.add_sub_cancel_left, present]
    have longer : i + 1 = (lists ++ [objectList place final]).length := by
      rw [length_append, ← numbered]
      rfl
    rcases ih longer (by omega) (listsMatch.next numbered (by omega) frozen)
      locatedLater (by omega) with ⟨last, unpacked, kept, length, copied⟩
    refine ⟨last, ?_, spec.kept.trans kept, ?_, ?_⟩
    · rw [length_cons, unpackPmcs, allBuffers, append_assoc, fetchBuf_store _ _ imageFits, ok_bind]
      simp only [thawed, ok_bind, spec.seen]
      rw [append_assoc, singleton_append] at unpacked
      exact unpacked
    · rw [length, spec.length, all, length_append, add_assoc]
    intro k p present
    rw [all] at present
    rcases lt_or_ge k final.frozen.length with here | later
    · rw [getElem?_append_left here] at present
      rcases spec.copied k p present with ⟨created, inHeap, isCopy⟩
      exact ⟨created, getElem?_of_prefix kept inHeap, isCopy⟩
    rw [getElem?_append_right later] at present
    rcases copied _ p present with ⟨created, inHeap, isCopy⟩
    refine ⟨created, ?_, isCopy⟩
    rw [spec.length, add_assoc, Nat.add_sub_cancel' later] at inHeap
    exact inHeap

end RakudoStar.Freeze

namespace RakudoStar.Freeze

open Packfile

variable {w : World P}

variable (w) in
/-- The PMCs that were created are copies of those that are reached, one of each. -/
structure Isomorphic (reached : P → Prop) (heap last : List Created) (place : P → Nat) : Prop where
  kept : heap <+: last
  fresh : ∀ p, reached p → heap.length ≤ place p ∧ place p < last.length
  injective : ∀ p q, reached p → reached q → place p = place q → p = q
  onto : ∀ a, heap.length ≤ a → a < last.length → ∃ p, reached p ∧ place p = a
  copied : ∀ p, reached p → ∃ created, last[place p]? = some created ∧ Copied w place p created

variable [DecidableEq P] {created : List P}

/-- The place of a PMC when some are created one after the other. -/
def placeIn (heap : List Created) (created : List P) (p : P) : Nat :=
  heap.length + created.idxOf p

theorem placeIn_of_getElem? {heap : List Created} {k : Nat} {p : P}
    (nodup : created.Nodup) (present : created[k]? = some p) :
    placeIn heap created p = heap.length + k := by
  rcases getElem?_eq_some_iff.mp present with ⟨inside, rfl⟩
  rw [placeIn, nodup.idxOf_getElem k inside]

theorem isomorphic_of_created {reached : P → Prop} {heap last : List Created}
    (nodup : created.Nodup) (isReached : ∀ p, p ∈ created ↔ reached p) (kept : heap <+: last)
    (length : last.length = heap.length + created.length)
    (copied : ∀ k p, created[k]? = some p → ∃ copy, last[heap.length + k]? = some copy ∧
      Copied w (placeIn heap created) p copy) :
    Isomorphic w reached heap last (placeIn heap created) where
  kept := kept
  fresh := by
    intro p isIn
    have inside := List.idxOf_lt_length_iff.mpr ((isReached p).mpr isIn)
    rw [placeIn, length]
    omega
  injective := by
    intro p q pIn _ same
    exact (List.idxOf_inj ((isReached p).mpr pIn)).mp (Nat.add_left_cancel same)
  onto := by
    intro a new old
    rw [length] at old
    have inside : a - heap.length < created.length := by omega
    refine ⟨created[a - heap.length], (isReached _).mp (List.getElem_mem inside), ?_⟩
    rw [placeIn_of_getElem? nodup (List.getElem?_eq_getElem inside)]
    omega
  copied := by
    intro p isIn
    have inside := List.idxOf_lt_length_iff.mpr ((isReached p).mpr isIn)
    apply copied
    rw [List.getElem?_eq_getElem inside, List.getElem_idxOf inside]

theorem map_placeIn (heap : List Created) (nodup : created.Nodup) :
    created.map (placeIn heap created) = List.range' heap.length created.length := by
  apply List.ext_getElem?
  intro k
  rw [List.getElem?_map]
  rcases Nat.lt_or_ge k created.length with inside | outside
  · have present := List.getElem?_eq_getElem inside
    rw [present, Option.map_some, placeIn_of_getElem? nodup present, List.getElem?_range' inside,
      Nat.one_mul]
  · rw [List.getElem?_eq_none_iff.mpr outside,
    List.getElem?_eq_none_iff.mpr (by simpa using outside)]
    rfl

variable (header : Header) {root : Option P} {table : Option (FreezeTable P)} {size : Nat}

/-- The PMCs of a graph are those that are reached from its root. -/
theorem reached_iff (frozen : freeze header w none root = some final) (p : P) :
    p ∈ final.frozen ↔ w.Reached root p := by
  have freezes := freezes_of_frozen frozen
  have leads : Leads w none = fun q r : P => r ∈ w.refs q := by
    funext q r
    exact propext (and_iff_right rfl)
  rw [← freezes.normals_eq, freezes.drains.numbered.mem_normals, freezes.mem_keys_iff, leads]
  exact and_iff_left rfl

theorem first_key (frozen : freeze header w table root = some final) : final.keys[0]? = root := by
  have freezes := freezes_of_frozen frozen
  cases root with
  | none =>
    have empty : final.keys = [] := by
      apply List.eq_nil_iff_forall_not_mem.mpr
      intro p seen
      rcases freezes.mem_keys_iff.mp seen with ⟨first, impossible, _⟩
      cases impossible
    rw [empty]
    rfl
  | some c =>
    have begins := freezes.drains.grows.seen.map Prod.fst
    change Freezer.keys _ <+: final.keys at begins
    rw [freezes.keys] at begins
    exact getElem?_of_prefix begins rfl

theorem getPmcKeyed_objectList
    (frozen : freeze header w table root = some final) (place : P → Nat) :
    getPmcKeyed (objectList place final) 0 = .ok (root.map place) := by
  have first := getPmcKeyed_natCast (objectList place final) 0
  rw [objectList, List.getElem?_map, first_key header frozen] at first
  rw [objectList]
  refine first.trans ?_
  cases root <;> rfl

theorem thaw_freeze_graph (lawful : w.Lawful) (root : Option P) (heap : List Created) :
    ∃ s t place, freeze header w none root = some s ∧
      thaw header none w.vtableMax w.thaw heap s.image = .ok t ∧ t.image = [] ∧
      getPmcKeyed t.seen 0 = .ok (root.map place) ∧
      Isomorphic w (w.Reached root) heap t.heap place ∧
      t.thawed = List.range' heap.length (t.heap.length - heap.length) ∧
      t.finished = List.range' heap.length (t.heap.length - heap.length) := by
  rcases freeze_spec header w none root with ⟨s, frozen, freezes⟩
  have nodup : s.frozen.Nodup := by
    rw [← freezes.normals_eq]
    exact freezes.drains.numbered.normals_nodup
  have located : Located (placeIn heap s.frozen) heap.length s := by
    intro k p present
    rw [freezes.normals_eq] at present
    exact placeIn_of_getElem? nodup present
  have tables : TablesMatch (placeIn heap s.frozen) none none := trivial
  rcases thaw_freeze lawful tables located frozen with ⟨t, thawed, spec⟩
  have count : t.heap.length - heap.length = s.frozen.length := by
    rw [spec.length, Nat.add_sub_cancel_left]
  refine ⟨s, t, placeIn heap s.frozen, frozen, thawed, spec.image, ?_, ?_, ?_, ?_⟩
  · rw [spec.seen]
    exact getPmcKeyed_objectList header frozen _
  · exact isomorphic_of_created nodup (reached_iff header frozen) spec.kept spec.length spec.copied
  · rw [spec.thawed, map_placeIn heap nodup, count]
  · rw [spec.finished, map_placeIn heap nodup, count]

/-- A PMC is part of a constant. -/
def ConstTable.Reached (w : World P) (ct : ConstTable P) (p : P) : Prop :=
  ∃ c, c ∈ ct.pmc ∧ w.Reached (some c) p

theorem mapM_firstObject {str : List (Option PStr)} {i : Nat} {constants : List P}
    {hash : PmcHash P Nat} {finals : List (Freezer P)}
    (packs : Packs header w str i constants hash finals) (place : P → Nat) :
    (finals.map (objectList place)).mapM firstObject =
      Except.ok (constants.map fun c => some (place c)) := by
  induction packs with
  | nil i hash => rfl
  | @cons i c constants hash final finals frozen _ ih =>
    have first : firstObject (objectList place final) = .ok (some (place c)) := by
      rw [firstObject, getPmcKeyed_objectList header frozen place, Except.ok_bind]
      rfl
    rw [List.map_cons, List.mapM_cons, first, ih]
    rfl

omit [DecidableEq P] in
theorem foldl_sizeString (str : List (Option PStr)) (size : Nat) :
    str.foldl (fun size s => size + sizeString s) size * wordsize =
      size * wordsize + (str.flatMap storeString).length := by
  induction str generalizing size with
  | nil => rfl
  | cons s str ih =>
    rw [List.foldl_cons, ih, List.flatMap_cons, List.length_append,
      length_storeString, add_mul, add_assoc]

theorem length_flatMap_store {α : Type} {store : α → List UInt8}
    (sizes : ∀ value, (store value).length = size) (values : List α) :
    (values.flatMap store).length = values.length * size := by
  induction values with
  | nil => exact (Nat.zero_mul size).symm
  | cons value values ih =>
    rw [List.flatMap_cons, List.length_append, sizes, ih, List.length_cons, Nat.succ_mul, add_comm]

def packedTable (ct : ConstTable P) (pmcs : List UInt8) : List UInt8 :=
  storeCount ct.num.length ++ (storeCount ct.str.length ++ (storeCount ct.pmc.length ++
    (ct.num.flatMap storeOpcode ++ (ct.str.flatMap storeString ++ (pmcs ++
      (storeCount ct.tagMap.length ++ ct.tagMap.flatMap storeTag))))))

omit [DecidableEq P] in
theorem length_packedTable (ct : ConstTable P) {pmcs : List UInt8}
    (length : pmcs.length = size * wordsize) : (packedTable ct pmcs).length =
      (3 + ct.num.length + ct.str.foldl (fun size s => size + sizeString s) 0 + size +
        (1 + ct.tagMap.length * 2)) * wordsize := by
  have strings := foldl_sizeString ct.str 0
  have nums := length_flatMap_store length_storeOpcode ct.num
  have tags : (ct.tagMap.flatMap storeTag).length = ct.tagMap.length * (2 * wordsize) := by
    apply length_flatMap_store
    intro tag
    rw [storeTag, List.length_append, length_storeOpcode, length_storeOpcode, two_mul]
  simp only [packedTable, List.length_append, storeCount, length_storeOpcode, nums, tags, length]
  unfold wordsize at strings ⊢
  omega

theorem pack_spec (w : World P) (ct : ConstTable P) :
    ∃ finals size, Packs header w ct.str 0 ct.pmc [] finals ∧ packSize w ct = some size ∧
      pack header w ct = some (packedTable ct (buffers finals)) ∧
      (packedTable ct (buffers finals)).length = size * wordsize := by
  rcases packPmcs_spec header w ct.str 0 ct.pmc [] with ⟨finals, packs, packed⟩
  rcases @sizePmcs_spec _ _ header w ct.str 0 ct.pmc [] finals [] packs rfl with
    ⟨pmcs, sized, length⟩
  refine ⟨finals, _, packs, ?_, ?_, length_packedTable ct length⟩
  · rw [packSize, sized]
    rfl
  · rw [pack, packed]
    rfl

theorem unpack_pack (lawful : w.Lawful) (ct : ConstTable P) {bytes : List UInt8}
    (packed : pack header w ct = some bytes) (addressable : bytes.length < 2 ^ 64)
    (heap : List Created) (rest : List UInt8) :
    ∃ u place, unpack header w.vtableMax w.thaw heap (bytes ++ rest) = .ok (u, rest) ∧
      u.num = ct.num ∧ u.str.map text = ct.str.map text ∧ u.tagMap = ct.tagMap ∧
      u.pmc = ct.pmc.map (fun c => some (place c)) ∧
      Isomorphic w (ct.Reached w) heap u.heap place := by
  rcases pack_spec header w ct with ⟨finals, size, packs, _, isPacked, _⟩
  cases packed.symm.trans isPacked
  have buffersFit : (buffers finals).length < 2 ^ 64 := by
    simp only [packedTable, List.length_append] at addressable
    omega
  rcases fetchEach_store fetchString_store ct.str
      (buffers finals ++ (storeCount ct.tagMap.length ++ ct.tagMap.flatMap storeTag) ++ rest) with
    ⟨str, fetchedStr, sameStr⟩
  have listsMatch : ListsMatch (placeIn heap (allNormals finals)) ([] : PmcHash P Nat) [] := by
    intro v constno idx impossible
    cases impossible
  have nodup := packs.nodup.1
  have few := ct.pmcFits
  have fewNums := ct.numFits
  have fewTags := ct.tagsFit
  have fewStrings := ct.strFits
  have located : ∀ k p, (allNormals finals)[k]? = some p →
      placeIn heap (allNormals finals) p = heap.length + k :=
    fun k p present => placeIn_of_getElem? nodup present
  rcases unpackPmcs_spec lawful ct.strFits sameStr packs rfl (by omega) listsMatch located
    buffersFit
      (storeCount ct.tagMap.length ++ ct.tagMap.flatMap storeTag ++ rest) with
    ⟨last, unpacked, kept, length, copied⟩
  refine ⟨{ num := ct.num, str, pmc := ct.pmc.map fun c => some (placeIn heap (allNormals finals) c)
            tagMap := ct.tagMap, heap := last }, placeIn heap (allNormals finals), ?_, rfl, ?_, rfl,
    rfl, ?_⟩
  · simp only [List.append_assoc] at unpacked fetchedStr
    rw [unpack, packedTable]
    simp only [List.append_assoc, fetchCount_store (show ct.num.length < 2 ^ 63 by omega),
      fetchCount_store (show ct.str.length < 2 ^ 63 by omega),
      fetchCount_store (show ct.pmc.length < 2 ^ 63 by omega),
      fetchCount_store (show ct.tagMap.length < 2 ^ 63 by omega), Except.ok_bind,
      fetchEach_eq fetchOpcode_store, fetchedStr, unpacked, List.nil_append,
      mapM_firstObject header packs, fetchEach_eq fetchTag_store]
  · change str.map text = ct.str.map text
    rw [← List.forall₂_eq_eq_eq, List.forall₂_map_left_iff, List.forall₂_map_right_iff]
    exact sameStr
  · exact isomorphic_of_created nodup (fun p => packs.mem_allNormals_iff) kept length copied

/-- Frozen graphs come back, their sizes are those that are computed, and packed constants come
back with what they share, in packfiles that fit into memory. -/
theorem frozen_roundTrip (lawful : w.Lawful) :
    (∀ root heap, ∃ s t place, freeze header w none root = some s ∧
      thaw header none w.vtableMax w.thaw heap s.image = .ok t ∧ t.image = [] ∧
      getPmcKeyed t.seen 0 = .ok (root.map place) ∧
      Isomorphic w (w.Reached root) heap t.heap place ∧
      t.thawed = List.range' heap.length (t.heap.length - heap.length) ∧
      t.finished = List.range' heap.length (t.heap.length - heap.length)) ∧
    (∀ sizes table, TablesAgree sizes table → ∀ root, ∃ z s, freezeSize w sizes root = some z ∧
      freeze header w table root = some s ∧ z.size = s.image.length) ∧
    ∀ ct, ∃ size bytes, packSize w ct = some size ∧ pack header w ct = some bytes ∧
      bytes.length = size * wordsize ∧ (bytes.length < 2 ^ 64 → ∀ heap rest, ∃ u place,
        unpack header w.vtableMax w.thaw heap (bytes ++ rest) = .ok (u, rest) ∧
        u.num = ct.num ∧ u.str.map text = ct.str.map text ∧ u.tagMap = ct.tagMap ∧
        u.pmc = ct.pmc.map (fun c => some (place c)) ∧
        Isomorphic w (ct.Reached w) heap u.heap place) := by
  refine ⟨thaw_freeze_graph header lawful, ?_, ?_⟩
  · intro sizes table agree root
    rcases freeze_spec header w table root with ⟨s, frozen, _⟩
    have walks := @freezeSize_spec _ w sizes table _ header agree root
    rw [frozen] at walks
    cases sized : freezeSize w sizes root with
    | none =>
      rw [sized] at walks
      cases walks
    | some z =>
      rw [sized] at walks
      cases walks with
      | some counts => exact ⟨z, s, rfl, frozen, counts.size⟩
  intro ct
  rcases pack_spec header w ct with ⟨finals, size, _, sized, packed, length⟩
  refine ⟨size, _, sized, packed, length, fun addressable heap rest => ?_⟩
  exact unpack_pack header lawful ct packed addressable heap rest

namespace Ring

def fileHeader : Header where
  bytes := List.replicate 18 0
  slack := List.replicate 14 0
  validate _ := .ok ()
  length_bytes := rfl
  length_slack := rfl
  validated := rfl

/-- Two PMCs that refer to each other; the second is the metadata of both. -/
def world : World Bool where
  obj
    | false =>
      { isObject := false, vtableBaseType := 1
        items := [.pmc (some true), .pmc none], metadata := some true }
    | true =>
      { isObject := true, vtableBaseType := 7
        items := [.integer 5, .pmc (some false)], metadata := some true }
  objectType := 2
  vtableMax := 10
  thaw type :=
    if type = 1 then .shiftPmc fun _ => .shiftPmc fun _ => .done
    else .shiftInteger fun _ => .shiftPmc fun _ => .done
  pmcs := [false, true]
  finite p := by cases p <;> decide
  fitsMemory := by decide

/-- The second PMC, and then the first, which refers to it. -/
def constTable : ConstTable Bool where
  num := [0]
  str := [none]
  pmc := [true, false, true]
  tagMap := [(0, 1)]
  numFits := by decide
  strFits := by decide
  pmcFits := by decide
  tagsFit := by decide

theorem lawful : world.Lawful where
  registered p := by cases p <;> decide
  shifts p := by cases p <;> simp [world, World.baseType, Thawing.Shifts]

end Ring

theorem frozen_roundTrip_ring :
    (∃ s t place, freeze Ring.fileHeader Ring.world none (some false) = some s ∧
      thaw Ring.fileHeader none Ring.world.vtableMax Ring.world.thaw [] s.image = .ok t ∧
      t.image = [] ∧ getPmcKeyed t.seen 0 = .ok (some (place false)) ∧
      Isomorphic Ring.world (Ring.world.Reached (some false)) [] t.heap place) ∧
    packSize Ring.world Ring.constTable = some 26 := by
  refine ⟨?_, by decide⟩
  rcases (frozen_roundTrip Ring.fileHeader Ring.lawful).1 (some false) [] with
    ⟨s, t, place, frozen, thawed, read, root, isomorphic, _⟩
  exact ⟨s, t, place, frozen, thawed, read, root, isomorphic⟩

end RakudoStar.Freeze
