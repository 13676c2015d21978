import RakudoStar.Freeze.Sizer
import RakudoStar.Freeze.Thawer

/-!
# The constant table of a packfile

`PackFile_ConstTable_pack` freezes each PMC constant into a buffer of its own. A hash keeps the
PMCs come upon, so that later constants refer to them by constant and id.
-/

namespace RakudoStar.Freeze

open Packfile

variable {P : Type}

/-- `PackFile_ConstTable`. Its strings are counted by an `int`, its other arrays lie in
memory. -/
structure ConstTable (P : Type) where
  num : List FloatVal
  str : List (Option PStr)
  pmc : List P
  tagMap : List (Word × Word)
  numFits : num.length < 2 ^ 61
  strFits : str.length < 2 ^ 31
  pmcFits : pmc.length < 2 ^ 61
  tagsFit : tagMap.length < 2 ^ 60

/-- `PackFile_ConstTable_rlookup_str`: the first constant with the same encoding and text. -/
def rlookupStr (str : List (Option PStr)) (s : Option PStr) : Option Nat :=
  str.findIdx? fun sc => text sc = text s

section

variable [DecidableEq P] {ι : Type}

/-- `pmc_hash`: the constant each PMC was found in, with its value in the seen hash. -/
abbrev PmcHash (P ι : Type) := List (P × Nat × ι)

def rlookupPmc (hash : PmcHash P ι) (v : P) : Option (Nat × ι) :=
  (hash.find? fun entry => entry.1 = v).map Prod.snd

def updateBackrefHash (hash : PmcHash P ι) (seen : List (P × ι)) (constno : Nat) : PmcHash P ι :=
  seen.foldl
    (fun hash entry =>
      if (rlookupPmc hash entry.1).isSome then hash else hash ++ [(entry.1, constno, entry.2)])
    hash

end

section

variable [DecidableEq P] (header : Header) (w : World P)

/-- The sizes of the PMC constants in `PackFile_ConstTable_pack_size`. -/
def sizePmcs (str : List (Option PStr)) : Nat → List P → PmcHash P P → Option Nat
  | _, [], _ => some 0
  | i, c :: constants, hash => do
    let table : SizeTable P :=
      { rlookupStr := rlookupStr str, rlookupPmc := rlookupPmc hash }
    let z ← freezeSize w (some table) (some c)
    let size ← sizePmcs str (i + 1) constants
      (updateBackrefHash hash (z.seen.map fun v => (v, v)) i)
    some (sizeStrlen z.size - 1 + size)

/-- `PackFile_ConstTable_pack_size`, in opcodes. -/
def packSize (ct : ConstTable P) : Option Nat := do
  let pmcs ← sizePmcs w ct.str 0 ct.pmc []
  some (3 + ct.num.length + ct.str.foldl (fun size s => size + sizeString s) 0 + pmcs +
    (1 + ct.tagMap.length * 2))

/-- The PMC constants in `PackFile_ConstTable_pack`. -/
def packPmcs (str : List (Option PStr)) : Nat → List P → PmcHash P Nat → Option (List UInt8)
  | _, [], _ => some []
  | i, c :: constants, hash => do
    let table : FreezeTable P :=
      { rlookupStr := rlookupStr str, rlookupPmc := rlookupPmc hash }
    let s ← freeze header w (some table) (some c)
    let rest ← packPmcs str (i + 1) constants (updateBackrefHash hash s.seen i)
    some (storeBuf s.image ++ rest)

/-- An entry of the tag map. -/
def storeTag (tag : Word × Word) : List UInt8 :=
  storeOpcode tag.1 ++ storeOpcode tag.2

/-- The number of entries of an array. -/
def storeCount (count : Nat) : List UInt8 :=
  storeOpcode (BitVec.ofNat 64 count)

def pack (ct : ConstTable P) : Option (List UInt8) := do
  let pmcs ← packPmcs header w ct.str 0 ct.pmc []
  some (storeCount ct.num.length ++ (storeCount ct.str.length ++ (storeCount ct.pmc.length ++
    (ct.num.flatMap storeOpcode ++ (ct.str.flatMap storeString ++ (pmcs ++
      (storeCount ct.tagMap.length ++ ct.tagMap.flatMap storeTag)))))))

end

/-- A constant table that was unpacked, with the memory of its PMCs. -/
structure Unpacked where
  num : List FloatVal
  str : List (Option PStr)
  pmc : List (Option Nat)
  tagMap : List (Word × Word)
  heap : List Created

/-- A loop that fetches a number of entries. -/
def fetchEach {α : Type} (fetch : List UInt8 → Except Fault (α × List UInt8)) :
    Nat → List UInt8 → Except Fault (List α × List UInt8)
  | 0, image => .ok ([], image)
  | count + 1, image => do
    let (value, image) ← fetch image
    let (values, image) ← fetchEach fetch count image
    .ok (value :: values, image)

/-- The number of rounds of a loop up to a count. -/
def fetchCount (image : List UInt8) : Except Fault (Nat × List UInt8) := do
  let (count, image) ← fetchOpcode image
  .ok (count.toInt.toNat, image)

/-- An entry of the tag map. -/
def fetchTag (image : List UInt8) : Except Fault ((Word × Word) × List UInt8) := do
  let (tagIdx, image) ← fetchOpcode image
  let (constIdx, image) ← fetchOpcode image
  .ok ((tagIdx, constIdx), image)

variable (header : Header) (vtableMax : Int) (types : Word → Thawing)

/-- The loop over `PackFile_Constant_unpack_pmc`: a constant becomes its list of objects. -/
def unpackPmcs (str : List (Option PStr)) :
    Nat → List (List (Option Nat)) → List Created → List UInt8 →
      Except Fault (List (List (Option Nat)) × List Created × List UInt8)
  | 0, lists, heap, image => .ok (lists, heap, image)
  | count + 1, lists, heap, image => do
    let (buffer, image) ← fetchBuf image
    let t ← thaw header (some { strings := str, lists }) vtableMax types heap buffer
    unpackPmcs str count (lists ++ [t.seen]) t.heap image

/-- The first object of a list is the constant. It is asked whether it is a sub. -/
def firstObject (list : List (Option Nat)) : Except Fault (Option Nat) := do
  let pmc ← getPmcKeyed list 0
  match pmc with
  | none => .error (.exception "Null PMC access in isa()")
  | some pmc => .ok (some pmc)

/-- `PackFile_ConstTable_unpack`, in a memory with some PMCs. -/
def unpack (heap : List Created) (image : List UInt8) : Except Fault (Unpacked × List UInt8) := do
  let (numCount, image) ← fetchCount image
  let (strCount, image) ← fetchCount image
  let (pmcCount, image) ← fetchCount image
  let (num, image) ← fetchEach fetchOpcode numCount image
  let (str, image) ← fetchEach fetchString strCount image
  let (lists, heap, image) ← unpackPmcs header vtableMax types str pmcCount [] heap image
  let pmc ← lists.mapM firstObject
  let (ntags, image) ← fetchCount image
  let (tagMap, image) ← fetchEach fetchTag ntags image
  .ok ({ num, str, pmc, tagMap, heap }, image)

end RakudoStar.Freeze

namespace RakudoStar.Freeze

open Packfile Relation

variable [DecidableEq P]

section

variable {ι κ : Type} {hash : PmcHash P ι} {seen : List (P × ι)} {i : Nat} {v : P}
  {found : Nat × ι}

def PmcHash.keys (hash : PmcHash P ι) : List P := hash.map Prod.fst

theorem rlookupPmc_isSome_iff : (rlookupPmc hash v).isSome ↔ v ∈ PmcHash.keys hash := by
  rw [rlookupPmc, Option.isSome_map, List.find?_isSome, PmcHash.keys, List.mem_map]
  simp only [decide_eq_true_eq]

theorem keys_updateBackrefHash (hash : PmcHash P ι) (seen : List (P × ι)) (i : Nat) :
    PmcHash.keys (updateBackrefHash hash seen i) =
      (seen.map Prod.fst).foldl (fun keys k => if k ∈ keys then keys else keys ++ [k])
        (PmcHash.keys hash) := by
  induction seen generalizing hash with
  | nil => rfl
  | cons entry seen ih =>
    rw [updateBackrefHash, List.foldl_cons, List.map_cons, List.foldl_cons]
    by_cases known : entry.1 ∈ PmcHash.keys hash
    · rw [if_pos (rlookupPmc_isSome_iff.mpr known), if_pos known]
      exact ih hash
    have unknown : ¬(rlookupPmc hash entry.1).isSome := fun isSome =>
      known (rlookupPmc_isSome_iff.mp isSome)
    have keys : PmcHash.keys (hash ++ [(entry.1, i, entry.2)]) =
        PmcHash.keys hash ++ [entry.1] := List.map_append
    rw [if_neg unknown, if_neg known, ← keys]
    exact ih _

theorem mem_foldl_insert (added keys : List P) :
    v ∈ added.foldl (fun keys k => if k ∈ keys then keys else keys ++ [k]) keys ↔
      v ∈ keys ∨ v ∈ added := by
  induction added generalizing keys with
  | nil => simp
  | cons k added ih =>
    rw [List.foldl_cons, ih, List.mem_cons]
    by_cases known : k ∈ keys
    · rw [if_pos known]
      constructor
      · rintro (inKeys | inAdded)
        · exact .inl inKeys
        · exact .inr (.inr inAdded)
      rintro (inKeys | rfl | inAdded)
      · exact .inl inKeys
      · exact .inl known
      · exact .inr inAdded
    · rw [if_neg known, List.mem_append, List.mem_singleton, or_assoc]

theorem mem_keys_updateBackrefHash : v ∈ PmcHash.keys (updateBackrefHash hash seen i) ↔
      v ∈ PmcHash.keys hash ∨ v ∈ seen.map Prod.fst := by
  rw [keys_updateBackrefHash, mem_foldl_insert]

theorem rlookupPmc_snoc {entry : P × Nat × ι} (hash : PmcHash P ι)
    (lookup : rlookupPmc (hash ++ [entry]) v = some found) :
    rlookupPmc hash v = some found ∨ entry = (v, found) := by
  rw [rlookupPmc, List.find?_append] at lookup
  cases old : hash.find? fun entry => entry.1 = v with
  | some before =>
    rw [old] at lookup
    left
    rw [rlookupPmc, old]
    exact lookup
  | none =>
    rw [old, Option.none_or, List.find?_singleton] at lookup
    split at lookup
    · case isTrue same =>
        right
        rw [decide_eq_true_eq] at same
        rw [← same, ← Option.some.inj lookup]
    · cases lookup

theorem rlookupPmc_update (hash : PmcHash P ι) (seen : List (P × ι))
    (lookup : rlookupPmc (updateBackrefHash hash seen i) v = some found) :
    rlookupPmc hash v = some found ∨ found.1 = i ∧ (v, found.2) ∈ seen := by
  induction seen generalizing hash with
  | nil => exact .inl lookup
  | cons entry seen ih =>
    rw [updateBackrefHash, List.foldl_cons] at lookup
    rcases ih _ lookup with old | ⟨here, inSeen⟩
    · split at old
      · exact .inl old
      rcases rlookupPmc_snoc hash old with older | same
      · exact .inl older
      right
      cases found
      cases same
      exact ⟨rfl, List.mem_cons_self⟩
    · exact .inr ⟨here, List.mem_cons_of_mem _ inSeen⟩

end

variable {header : Header} {w : World P} {str : List (Option PStr)} {i : Nat} {c p : P}
  {constants : List P} {hash : PmcHash P Nat} {finals : List (Freezer P)}

/-- The table that a constant is frozen into. -/
def freezeTable (str : List (Option PStr)) (hash : PmcHash P Nat) : FreezeTable P :=
  { rlookupStr := rlookupStr str, rlookupPmc := rlookupPmc hash }

variable (header w str) in
/-- The freezers of the constants. -/
inductive Packs : Nat → List P → PmcHash P Nat → List (Freezer P) → Prop
  | nil (i : Nat) (hash : PmcHash P Nat) : Packs i [] hash []
  | cons {i : Nat} {c : P} {constants : List P} {hash : PmcHash P Nat} {final : Freezer P}
      {finals : List (Freezer P)}
      (frozen : freeze header w (some (freezeTable str hash)) (some c) = some final)
      (rest : Packs (i + 1) constants (updateBackrefHash hash final.seen i) finals) :
      Packs i (c :: constants) hash (final :: finals)

def buffers (finals : List (Freezer P)) : List UInt8 :=
  finals.flatMap fun final => storeBuf final.image

theorem packPmcs_spec (header : Header) (w : World P) (str : List (Option PStr)) (i : Nat)
    (constants : List P) (hash : PmcHash P Nat) :
    ∃ finals, Packs header w str i constants hash finals ∧
      packPmcs header w str i constants hash = some (buffers finals) := by
  induction constants generalizing i hash with
  | nil => exact ⟨[], .nil i hash, rfl⟩
  | cons c constants ih =>
    rcases freeze_spec header w (some (freezeTable str hash)) (some c) with ⟨final, frozen, _⟩
    rcases ih (i + 1) (updateBackrefHash hash final.seen i) with ⟨finals, packs, rest⟩
    refine ⟨final :: finals, .cons frozen packs, ?_⟩
    rw [freezeTable] at frozen
    rw [packPmcs, frozen, Option.bind_eq_bind, Option.bind_some, rest]
    rfl

theorem tablesAgree_of_keys {sizes : PmcHash P P} (same : PmcHash.keys sizes = PmcHash.keys hash) :
    TablesAgree (some { rlookupStr := rlookupStr str, rlookupPmc := rlookupPmc sizes })
      (some (freezeTable str hash)) := by
  refine ⟨rfl, fun v => ?_⟩
  change (rlookupPmc sizes v).isSome = (rlookupPmc hash v).isSome
  rw [Bool.eq_iff_iff, rlookupPmc_isSome_iff, rlookupPmc_isSome_iff, same]

theorem sizePmcs_spec {sizes : PmcHash P P} (packs : Packs header w str i constants hash finals)
    (same : PmcHash.keys sizes = PmcHash.keys hash) :
    ∃ size, sizePmcs w str i constants sizes = some size ∧
      (buffers finals).length = size * wordsize := by
  induction packs generalizing sizes with
  | nil i hash => exact ⟨0, rfl, rfl⟩
  | @cons i c constants hash final finals frozen _ ih =>
    have walks := @freezeSize_spec _ w _ _ _ header
      (@tablesAgree_of_keys _ _ str hash _ same) (some c)
    rw [frozen] at walks
    cases sized : freezeSize w
      (some { rlookupStr := rlookupStr str, rlookupPmc := rlookupPmc sizes }) (some c) with
    | none =>
      rw [sized] at walks
      cases walks
    | some z =>
      rw [sized] at walks
      cases walks with
      | some counts =>
        have keys : PmcHash.keys
            (updateBackrefHash sizes (z.seen.map fun v => (v, v)) i) =
              PmcHash.keys (updateBackrefHash hash final.seen i) := by
          have values : (z.seen.map fun v => (v, v)).map Prod.fst = z.seen := by
            rw [List.map_map]
            exact List.map_id _
          rw [keys_updateBackrefHash, keys_updateBackrefHash, same, values, counts.seen]
          rfl
        rcases ih keys with ⟨size, sizesRest, length⟩
        refine ⟨sizeStrlen z.size - 1 + size, ?_, ?_⟩
        · rw [sizePmcs, sized, Option.bind_eq_bind, Option.bind_some, sizesRest]
          rfl
        rw [buffers, List.flatMap_cons, List.length_append, length_storeBuf, ← counts.size,
          add_mul, ← length]
        rfl

end RakudoStar.Freeze
