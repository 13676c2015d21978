import RakudoStar.P6opaque.Sound
import RakudoStar.Foundation.Codec
import Mathlib.Algebra.Group.Int.Defs
import Mathlib.Data.List.Induction

/-!
# Serialized layouts

`serialize_repr_data` of `P6opaque.c` writes a summary of a layout, and `deserialize_repr_data`
works the offsets and slot lists out again. `serialize` and `deserialize` do the attributes,
slot after slot.
-/

namespace RakudoStar.P6opaque

open SixModel List RakudoStar.Except Nat
open Foundation

/-- What `write_ref` is given here. -/
inductive Ref (C : Type)
  | attribute (pointer : Pmc)
  | container (value : Option Pmc)
  | classKey (key : C)
  | nameMap (map : NameMap)

/-- What it writes its reader reads; a representation may have no `serialize`. -/
structure Serializer (C T U : Type) where
  writeInt : Int → List U
  readInt : StreamReader U Int
  writeRef : Ref C → List U
  readRef : StreamReader U (Ref C)
  writeStableRef : T → List U
  readStableRef : StreamReader U T
  serialize : T → Option (List UInt8 → List U)
  deserialize : T → List UInt8 → StreamReader U (List UInt8)
  reads_int : ∀ value, -2 ^ 63 ≤ value → value < 2 ^ 63 → Reads readInt (writeInt value) value
  reads_stableRef : ∀ type, Reads readStableRef (writeStableRef type) type

variable {C T V W U : Type} {r : Representations T V W} {flattened : List (Option T)}
  {data noted : ReprData C T} {s : Serializer C T U} {bits : T → Nat} {slot : Nat}

/-- An attribute's entry in `flattened_stables`. -/
def writeFlattened (s : Serializer C T U) : Option T → List U
  | none => s.writeInt 0
  | some type => s.writeInt 1 ++ s.writeStableRef type

def slotNumber (slot : Option Nat) : Int :=
  (slot.map Int.ofNat).getD (-1)

/-- An array that may be null. -/
def writeArray (s : Serializer C T U) (present : Bool) (entries : List U) : List U :=
  if present then s.writeInt 1 ++ entries else s.writeInt 0

/-- The memory of `unbox_slots`, which has an entry for every attribute. -/
def ReprData.unboxTable (data : ReprData C T) : List (Nat × Nat) :=
  if data.unboxSlots = [] then []
  else data.unboxSlots ++ List.replicate (data.numAttributes - data.unboxSlots.length) (0, 0)

def writeBoxedType (s : Serializer C T U) (entry : Nat × Nat) : List U :=
  s.writeInt entry.1 ++ s.writeInt entry.2

def writeNameMap (s : Serializer C T U) (entry : C × NameMap) : List U :=
  s.writeRef (.classKey entry.1) ++ s.writeRef (.nameMap entry.2)

/-- `serialize_repr_data`, of data that are computed. -/
def serializeReprData (s : Serializer C T U) (data : ReprData C T) : List U :=
  s.writeInt data.numAttributes ++ data.flattenedStables.flatMap (writeFlattened s) ++
    s.writeInt (if data.mi then 1 else 0) ++
    -- the array is allocated with the first container
    writeArray s (data.autoVivValues.any Option.isSome)
      (data.autoVivValues.flatMap fun value => s.writeRef (.container value)) ++
    s.writeInt (slotNumber data.unboxIntSlot) ++ s.writeInt (slotNumber data.unboxNumSlot) ++
    s.writeInt (slotNumber data.unboxStrSlot) ++
    writeArray s (!data.unboxSlots.isEmpty) (data.unboxTable.flatMap (writeBoxedType s)) ++
    s.writeInt data.nameToIndexMapping.length ++ data.nameToIndexMapping.flatMap (writeNameMap s)

/-- One attribute of an object, in `serialize`. -/
def writeAttribute (s : Serializer C T U) (r : Representations T V W) (body : List UInt8)
    (entry : Nat × Option T) : Except String (List U) :=
  match entry.2 with
  | some type =>
    match s.serialize type with
    | some write => .ok (write (readRegion body entry.1 (r.size type)))
    | none => .error "Missing serialize REPR function"
  | none => .ok (s.writeRef (.attribute (getPmcAtOffset body entry.1)))

def serialize (s : Serializer C T U) (r : Representations T V W) (data : ReprData C T)
    (body : List UInt8) : Except String (List U) := do
  let texts ← (data.attributeOffsets.zip data.flattenedStables).mapM (writeAttribute s r body)
  .ok texts.flatten

def readFlattened (s : Serializer C T U) : StreamReader U (Option T) := do
  let flag ← s.readInt
  if flag ≠ 0 then do
    let type ← s.readStableRef
    pure (some type)
  else pure none

def readSlotNumber (s : Serializer C T U) : StreamReader U (Option Nat) := do
  let slot ← s.readInt
  pure (if slot < 0 then none else some slot.toNat)

def readContainer (s : Serializer C T U) : StreamReader U (Option Pmc) := do
  match ← s.readRef with
  | .container value => pure value
  | _ => failure

/-- A null array has no container for any slot. -/
def readAutoVivValues (s : Serializer C T U) (count : Nat) :
    StreamReader U (List (Option Pmc)) := do
  let present ← s.readInt
  if present ≠ 0 then readMany count (readContainer s) else pure (List.replicate count none)

def readBoxedType (s : Serializer C T U) : StreamReader U (Nat × Nat) := do
  let reprId ← s.readInt
  let slot ← s.readInt
  pure (reprId.toNat, slot.toNat)

def readUnboxSlots (s : Serializer C T U) (count : Nat) : StreamReader U (List (Nat × Nat)) := do
  let present ← s.readInt
  if present ≠ 0 then readMany count (readBoxedType s) else pure []

def readNameMap (s : Serializer C T U) : StreamReader U (C × NameMap) := do
  match ← s.readRef with
  | .classKey key =>
    match ← s.readRef with
    | .nameMap map => pure (key, map)
    | _ => failure
  | _ => failure

/-- What is known of the next slot; the number is `cur_offset`. -/
def restoreSlot (r : Representations T V W) (bits : T → Nat) (state : ReprData C T × Nat)
    (flattened : Option T) : ReprData C T × Nat :=
  let data := state.1
  let slot := data.attributeOffsets.length
  match flattened with
  | none =>
    ({ data with
        attributeOffsets := data.attributeOffsets ++ [state.2]
        gcPmcMarkOffsets := data.gcPmcMarkOffsets ++ [state.2] }, state.2 + pointerSize)
  | some type =>
    ({ data with
        attributeOffsets := data.attributeOffsets ++ [state.2]
        initializeSlots := data.initializeSlots ++ if r.initializes type then [slot] else []
        gcMarkSlots := data.gcMarkSlots ++ if r.marks type then [slot] else []
        gcCleanupSlots := data.gcCleanupSlots ++ if r.cleansUp type then [slot] else [] },
      state.2 + bits type / 8)

/-- Re-calculate the remaining info of a layout. -/
def recalculate (r : Representations T V W) (bits : T → Nat) (read : ReprData C T) : ReprData C T :=
  let final := read.flattenedStables.foldl (restoreSlot r bits) (read, 0)
  { final.1 with allocationSize := headerSize + final.2 }

/-- `bits` are asked for with the STable of the class, so they are no function here. -/
def deserializeReprData (s : Serializer C T U) (r : Representations T V W) (bits : T → Nat) :
    StreamReader U (ReprData C T) := do
  let numAttributes ← s.readInt
  let flattenedStables ← readMany numAttributes.toNat (readFlattened s)
  let mi ← s.readInt
  let autoVivValues ← readAutoVivValues s numAttributes.toNat
  let unboxIntSlot ← readSlotNumber s
  let unboxNumSlot ← readSlotNumber s
  let unboxStrSlot ← readSlotNumber s
  let unboxSlots ← readUnboxSlots s numAttributes.toNat
  let numClasses ← s.readInt
  let nameToIndexMapping ← readMany numClasses.toNat (readNameMap s)
  pure (recalculate r bits
    { allocationSize := 0, attributeOffsets := [], flattenedStables, mi := decide (mi ≠ 0)
      autoVivValues, unboxIntSlot, unboxNumSlot, unboxStrSlot, unboxSlots, nameToIndexMapping
      gcPmcMarkOffsets := [], initializeSlots := [], gcMarkSlots := [], gcCleanupSlots := [] })

/-- One attribute of an object, in `deserialize`. -/
def readAttribute (s : Serializer C T U) (r : Representations T V W) (body : List UInt8)
    (entry : Nat × Option T) : StreamReader U (List UInt8) :=
  match entry.2 with
  | some type => do
    let stored ← s.deserialize type (readRegion body entry.1 (r.size type))
    pure (overwrite body entry.1 stored)
  | none => do
    match ← s.readRef with
    | .attribute pointer => pure (setPmcAtOffset body entry.1 pointer)
    | _ => failure

def deserialize (s : Serializer C T U) (r : Representations T V W) (data : ReprData C T)
    (body : List UInt8) : StreamReader U (List UInt8) :=
  (data.attributeOffsets.zip data.flattenedStables).foldlM (readAttribute s r) body

/-- The slots of flattened attributes whose representation has some function. -/
def slotsOf (has : T → Bool) (flattened : List (Option T)) : List Nat :=
  (flattened.zipIdx.filter fun entry => entry.1.any has).map Prod.snd

/-- The offsets of the attributes of a kind. -/
def offsetsOf (r : Representations T V W) (kind : Option T → Bool) (flattened : List (Option T)) :
    List Nat :=
  (((fieldOffsets 0 (flattened.map (attributeSize r))).zip flattened).filter
    fun entry => kind entry.2).map Prod.fst

theorem slotsOf_append (has : T → Bool) (flattened : List (Option T)) (next : Option T) :
    slotsOf has (flattened ++ [next]) =
      slotsOf has flattened ++ if next.any has then [flattened.length] else [] := by
  cases same : next.any has <;> simp [slotsOf, zipIdx_append, same]

theorem offsetsOf_append (r : Representations T V W) (kind : Option T → Bool)
    (flattened : List (Option T)) (next : Option T) :
    offsetsOf r kind (flattened ++ [next]) = offsetsOf r kind flattened ++
      if kind next then [(flattened.map (attributeSize r)).sum] else [] := by
  have length : (fieldOffsets 0 (flattened.map (attributeSize r))).length = flattened.length := by
    simp
  cases same : kind next <;>
    simp [offsetsOf, fieldOffsets_append, fieldOffsets, zip_append length, same]

theorem foldl_restoreSlot {read : ReprData C T}
    (blank : read.attributeOffsets = [] ∧ read.gcPmcMarkOffsets = [] ∧ read.initializeSlots = [] ∧
      read.gcMarkSlots = [] ∧ read.gcCleanupSlots = []) (flattened : List (Option T))
    (reported : ∀ type, some type ∈ flattened → bits type = (r.getStorageSpec type).bits) :
    flattened.foldl (restoreSlot r bits) (read, 0) = ({ read with
          attributeOffsets := fieldOffsets 0 (flattened.map (attributeSize r))
          gcPmcMarkOffsets := offsetsOf r Option.isNone flattened
          initializeSlots := slotsOf r.initializes flattened
          gcMarkSlots := slotsOf r.marks flattened
          gcCleanupSlots := slotsOf r.cleansUp flattened },
        (flattened.map (attributeSize r)).sum) := by
  induction flattened using List.reverseRecOn with
  | nil =>
    rcases blank with ⟨offsets, pmcs, starts, marks, cleanup⟩
    cases read
    simp_all [slotsOf, offsetsOf, fieldOffsets]
  | append_singleton flattened next ih =>
    rw [foldl_append, ih fun type member =>
      reported type (mem_append_left _ member), foldl_cons, foldl_nil]
    simp only [slotsOf_append, offsetsOf_append, map_append, map_cons, map_nil,
      fieldOffsets_append, sum_append_nat, sum_cons, sum_nil, add_zero, zero_add]
    cases next with
    | none => simp [restoreSlot, fieldOffsets, attributeSize]
    | some type =>
      have bitsEq := reported type (by simp)
      simp [restoreSlot, fieldOffsets, attributeSize, bitsEq]

/-- A flattened attribute that boxes no primitive is noted for marking, too. -/
def notedForMarking (r : Representations T V W) (flattened : Option T) : Bool :=
  decide ((flattened.map r.boxedPrimitive).getD .none = .none)

/-- The lists that the strategy makes beside the arrays of the layout. -/
structure Noted (r : Representations T V W) (data : ReprData C T) : Prop where
  starts : data.initializeSlots = slotsOf r.initializes data.flattenedStables
  marks : data.gcMarkSlots = slotsOf r.marks data.flattenedStables
  cleanup : data.gcCleanupSlots = slotsOf r.cleansUp data.flattenedStables
  pmcs : data.gcPmcMarkOffsets = offsetsOf r (notedForMarking r) data.flattenedStables
  unbox : ∀ slot, (data.unboxIntSlot = some slot ∨ data.unboxNumSlot = some slot ∨
    data.unboxStrSlot = some slot) → slot < data.numAttributes
  unboxSlots : ∀ entry ∈ data.unboxSlots, entry.2 < data.numAttributes ∧
    ∃ type, entry.1 = r.reprId type
  fewUnboxSlots : data.unboxSlots.length ≤ data.numAttributes

theorem noteBoxTarget_sets {primitive : BoxedPrimitive}
    (done : noteBoxTarget slot primitive data = .ok noted) : (∃ int num str, noted = { data with
      unboxIntSlot := int, unboxNumSlot := num, unboxStrSlot := str }) ∧
    ∀ other, (noted.unboxIntSlot = some other ∨ noted.unboxNumSlot = some other ∨
      noted.unboxStrSlot = some other) →
        other = slot ∨ data.unboxIntSlot = some other ∨ data.unboxNumSlot = some other ∨
          data.unboxStrSlot = some other := by
  cases primitive with
  | none =>
    cases done
    exact ⟨⟨_, _, _, rfl⟩, fun other set => .inr set⟩
  | int | num | str =>
    rw [noteBoxTarget] at done
    split at done
    · cases done
    · cases done
      exact ⟨⟨_, _, _, rfl⟩, fun other set => by grind⟩

/-- What noting a flattened attribute adds to the lists. -/
structure Notes (r : Representations T V W) (slot : Nat) (flattened : Option T)
    (data noted : ReprData C T) : Prop where
  starts : noted.initializeSlots =
    data.initializeSlots ++ if flattened.any r.initializes then [slot] else []
  marks : noted.gcMarkSlots = data.gcMarkSlots ++ if flattened.any r.marks then [slot] else []
  cleanup : noted.gcCleanupSlots =
    data.gcCleanupSlots ++ if flattened.any r.cleansUp then [slot] else []
  pmcs : noted.gcPmcMarkOffsets = data.gcPmcMarkOffsets
  unbox : ∀ other, (noted.unboxIntSlot = some other ∨ noted.unboxNumSlot = some other ∨
    noted.unboxStrSlot = some other) →
      other = slot ∨ data.unboxIntSlot = some other ∨ data.unboxNumSlot = some other ∨
        data.unboxStrSlot = some other
  unboxSlots : noted.unboxSlots = data.unboxSlots ∨
    ∃ type, noted.unboxSlots = data.unboxSlots ++ [(r.reprId type, slot)]

theorem noteAttribute_notes {flattened : Option T} {boxTarget : Bool}
    (done : noteAttribute r slot flattened boxTarget data = .ok noted) :
    Notes r slot flattened data noted := by
  cases flattened with
  | none =>
    cases done
    exact ⟨by simp, by simp, by simp, rfl, fun other set => .inr set, .inl rfl⟩
  | some type =>
    rw [noteAttribute, noteFlattened] at done
    split at done
    · rcases of_bind done with ⟨targeted, target, finished⟩
      rcases noteBoxTarget_sets target with ⟨⟨int, num, str, rfl⟩, unbox⟩
      cases finished
      exact ⟨by simp, by simp, by simp, rfl, unbox, .inr ⟨type, rfl⟩⟩
    · cases done
      exact ⟨by simp, by simp, by simp, rfl, fun other set => .inr set, .inl rfl⟩

/-- Allocating an attribute keeps the lists in step with the arrays. -/
theorem allocateAttribute_noted {state next : ReprData C T × Nat}
    {attr : Attribute T Pmc} (noted : Noted r state.1)
    (lengths : state.1.flattenedStables.length = state.1.numAttributes)
    (offset : state.2 = (state.1.flattenedStables.map (attributeSize r)).sum)
    (allocated : allocateAttribute r state attr = .ok next) : Noted r next.1 := by
  rcases of_bind allocated with ⟨noting, done, finished⟩
  have notes := noteAttribute_notes done
  cases finished
  have longer : ∀ slot, slot < state.1.numAttributes →
      slot < (state.1.attributeOffsets ++ [state.2]).length := by
    intro slot below
    rw [length_append]
    exact Nat.lt_add_right _ below
  have last : state.1.attributeOffsets.length <
      (state.1.attributeOffsets ++ [state.2]).length := by simp
  constructor
  · rw [slotsOf_append, lengths, ← noted.starts]
    exact notes.starts
  · rw [slotsOf_append, lengths, ← noted.marks]
    exact notes.marks
  · rw [slotsOf_append, lengths, ← noted.cleanup]
    exact notes.cleanup
  · rw [offsetsOf_append, ← noted.pmcs, ← offset, ← notes.pmcs]
    simp [notedForMarking]
  · intro slot set
    rcases notes.unbox slot set with rfl | earlier
    · exact last
    · exact longer slot (noted.unbox slot earlier)
  · intro entry member
    rcases notes.unboxSlots with same | ⟨type, added⟩
    · have before := noted.unboxSlots entry (same ▸ member)
      exact ⟨longer _ before.1, before.2⟩
    rcases mem_append.mp (added ▸ member) with earlier | new
    · have before := noted.unboxSlots entry earlier
      exact ⟨longer _ before.1, before.2⟩
    · rw [mem_singleton.mp new]
      exact ⟨last, type, rfl⟩
  · have few := noted.fewUnboxSlots
    have grown : (state.1.attributeOffsets ++ [state.2]).length = state.1.numAttributes + 1 := by
      simp [ReprData.numAttributes]
    change noting.unboxSlots.length ≤ _
    rw [ReprData.numAttributes, grown]
    rcases notes.unboxSlots with same | ⟨type, added⟩
    · rw [same]
      exact le_succ_of_le few
    · rw [added, length_append]
      exact succ_le_succ few

theorem noted_of_strategy [DecidableEq C] {r : Representations T V W}
    {h : Hierarchy C T Pmc} {target : C} {data : ReprData C T}
    (done : computeAllocationStrategy r h target = .ok data) : Noted r data := by
  have noted : ∀ (attributes : List (Attribute T Pmc)) (final : ReprData C T × Nat),
      attributes.foldlM (allocateAttribute r) (startData (indexMappingAndFlatList h target), 0) =
        .ok final → Noted r final.1 := by
    intro attributes
    induction attributes using List.reverseRecOn with
    | nil =>
      intro final allocated
      cases allocated
      constructor <;> simp [startData, slotsOf, offsetsOf, ReprData.numAttributes]
    | append_singleton attributes attr ih =>
      intro final allocated
      rw [foldlM_append] at allocated
      rcases of_bind allocated with ⟨state, earlier, last⟩
      rcases foldlM_allocateAttribute _ earlier with ⟨offsets, flattened, -, -, -, size⟩
      rw [foldlM_cons] at last
      rcases of_bind last with ⟨next, allocatedNext, finished⟩
      cases finished
      refine allocateAttribute_noted (ih state earlier) ?_ ?_ allocatedNext
      · rw [ReprData.numAttributes, flattened, offsets]
        simp [startData]
      rw [size, flattened]
      simp only [startData, nil_append, map_map, zero_add]
      rfl
  unfold computeAllocationStrategy at done
  dsimp only at done
  split at done
  · cases done
    exact noted [] _ rfl
  rcases of_bind done with ⟨final, allocated, finished⟩
  cases finished
  have lists := noted _ _ allocated
  exact ⟨lists.starts, lists.marks, lists.cleanup, lists.pmcs, lists.unbox, lists.unboxSlots,
    lists.fewUnboxSlots⟩

section

theorem Serializer.reads_number (s : Serializer C T U) {n : Nat} (fits : n < 2 ^ 63) :
    Reads s.readInt (s.writeInt n) n :=
  s.reads_int n (by omega) (by omega)

theorem Serializer.reads_flag (s : Serializer C T U) (flag : Bool) :
    Reads s.readInt (s.writeInt (if flag then 1 else 0)) (if flag then 1 else 0) :=
  s.reads_int _ (by cases flag <;> decide) (by cases flag <;> decide)

theorem reads_flattened (s : Serializer C T U) (flattened : Option T) :
    Reads (readFlattened s) (writeFlattened s flattened) flattened := by
  cases flattened with
  | none => exact (s.reads_flag false).last rfl
  | some type => exact (s.reads_flag true).bind ((s.reads_stableRef type).last rfl)

theorem reads_slotNumber (s : Serializer C T U) {slot : Option Nat}
    (fits : ∀ n, slot = some n → n < 2 ^ 63) :
    Reads (readSlotNumber s) (s.writeInt (slotNumber slot)) slot := by
  cases slot with
  | none => exact (s.reads_int (-1) (by decide) (by decide)).last rfl
  | some n => exact (s.reads_number (fits n rfl)).last rfl

theorem reads_array (s : Serializer C T U) {A : Type} {present : Bool} {text : List U}
    {reader : StreamReader U A} {absent value : A}
    (read : present = true → Reads reader text value) (null : present = false → value = absent) :
    Reads (do let flag ← s.readInt; if flag ≠ 0 then reader else pure absent)
      (writeArray s present text) value := by
  cases present with
  | true => exact (s.reads_flag true).bind (read rfl)
  | false =>
    rw [null rfl]
    exact (s.reads_flag false).last rfl

/-- The containers, the classes and the name maps of a layout come back from the writer. -/
structure RefsReturn (s : Serializer C T U) (data : ReprData C T) : Prop where
  container : ∀ value ∈ data.autoVivValues,
    Reads s.readRef (s.writeRef (.container value)) (.container value)
  classKey : ∀ entry ∈ data.nameToIndexMapping,
    Reads s.readRef (s.writeRef (.classKey entry.1)) (.classKey entry.1)
  nameMap : ∀ entry ∈ data.nameToIndexMapping,
    Reads s.readRef (s.writeRef (.nameMap entry.2)) (.nameMap entry.2)

/-- Slots, classes and representations are few enough to be counted in an integer. -/
structure Countable (r : Representations T V W) (data : ReprData C T) : Prop where
  attributes : data.numAttributes < 2 ^ 63
  classes : data.nameToIndexMapping.length < 2 ^ 63
  reprs : ∀ type, r.reprId type < 2 ^ 63

theorem RefsReturn.reads_nameMap (refs : RefsReturn s data)
    {entry : C × NameMap} (member : entry ∈ data.nameToIndexMapping) :
    Reads (readNameMap s) (writeNameMap s entry) entry :=
  (refs.classKey entry member).bind ((refs.nameMap entry member).last rfl)

theorem RefsReturn.reads_autoVivValues (refs : RefsReturn s data) :
    Reads (readAutoVivValues s data.autoVivValues.length)
      (writeArray s (data.autoVivValues.any Option.isSome)
        (data.autoVivValues.flatMap fun value => s.writeRef (.container value)))
      data.autoVivValues := by
  refine reads_array s (fun _ => ?_) fun null => ?_
  · exact Reads.many fun value member => (refs.container value member).last rfl
  · rw [any_eq_false] at null
    exact eq_replicate_iff.mpr ⟨rfl, fun value member => by simpa using null value member⟩

theorem length_unboxTable (noted : Noted r data) (present : data.unboxSlots ≠ []) :
    data.unboxTable.length = data.numAttributes := by
  rw [ReprData.unboxTable, if_neg present, length_append, length_replicate]
  exact Nat.add_sub_cancel' noted.fewUnboxSlots

theorem reads_unboxSlots (noted : Noted r data) (countable : Countable r data) :
    Reads (readUnboxSlots s data.numAttributes)
      (writeArray s (!data.unboxSlots.isEmpty) (data.unboxTable.flatMap (writeBoxedType s)))
      data.unboxTable := by
  refine reads_array s (fun some => ?_) fun null => ?_
  · have present : data.unboxSlots ≠ [] := by simpa using some
    rw [← length_unboxTable noted present]
    refine Reads.many fun entry member => ?_
    have small : entry.1 < 2 ^ 63 ∧ entry.2 < 2 ^ 63 := by
      rw [ReprData.unboxTable, if_neg present] at member
      rcases mem_append.mp member with used | unused
      · rcases noted.unboxSlots entry used with ⟨below, type, isRepr⟩
        exact ⟨isRepr ▸ countable.reprs type, lt_trans below countable.attributes⟩
      · rw [eq_of_mem_replicate unused]
        decide
    exact (s.reads_number small.1).bind ((s.reads_number small.2).last rfl)
  · have absent : data.unboxSlots = [] := by simpa using null
    rw [ReprData.unboxTable, if_pos absent]

/-- The layout that is made of the data that were written. -/
def restored (r : Representations T V W) (data : ReprData C T) : ReprData C T :=
  { data with
    allocationSize := headerSize + (data.flattenedStables.map (attributeSize r)).sum
    attributeOffsets := fieldOffsets 0 (data.flattenedStables.map (attributeSize r))
    unboxSlots := data.unboxTable
    gcPmcMarkOffsets := offsetsOf r Option.isNone data.flattenedStables
    initializeSlots := slotsOf r.initializes data.flattenedStables
    gcMarkSlots := slotsOf r.marks data.flattenedStables
    gcCleanupSlots := slotsOf r.cleansUp data.flattenedStables }

theorem reads_reprData
    (noted : Noted r data) (flattenedLength : data.flattenedStables.length = data.numAttributes)
    (autoVivLength : data.autoVivValues.length = data.numAttributes)
    (reported : ∀ type, some type ∈ data.flattenedStables →
      bits type = (r.getStorageSpec type).bits)
    (refs : RefsReturn s data) (countable : Countable r data) :
    Reads (deserializeReprData s r bits) (serializeReprData s data) (restored r data) := by
  have slotFits : ∀ slot : Nat, slot < data.numAttributes → slot < 2 ^ 63 :=
    fun slot below => lt_trans below countable.attributes
  have flattened := @Reads.many _ _ _ _ data.flattenedStables fun flattened _ =>
    reads_flattened s flattened
  have autoViv := refs.reads_autoVivValues
  have names := @Reads.many _ _ _ _ data.nameToIndexMapping fun entry member =>
    refs.reads_nameMap member
  rw [flattenedLength] at flattened
  rw [autoVivLength] at autoViv
  have assembled : recalculate r bits
      { data with
        allocationSize := 0, attributeOffsets := [], unboxSlots := data.unboxTable
        mi := decide ((if data.mi then 1 else 0) ≠ (0 : Int)), gcPmcMarkOffsets := []
        initializeSlots := [], gcMarkSlots := [], gcCleanupSlots := [] } = restored r data := by
    rw [recalculate, foldl_restoreSlot ⟨rfl, rfl, rfl, rfl, rfl⟩ _ reported, restored]
    cases data.mi <;> rfl
  simp only [serializeReprData, append_assoc]
  refine (s.reads_number countable.attributes).bind ?_
  refine flattened.bind ?_
  refine (s.reads_flag data.mi).bind ?_
  refine autoViv.bind ?_
  refine (reads_slotNumber s fun n same => slotFits n (noted.unbox n (.inl same))).bind ?_
  refine (reads_slotNumber s fun n same => slotFits n (noted.unbox n (.inr (.inl same)))).bind ?_
  refine (reads_slotNumber s fun n same => slotFits n (noted.unbox n (.inr (.inr same)))).bind ?_
  refine (reads_unboxSlots noted countable).bind ?_
  refine (s.reads_number countable.classes).bind ?_
  refine names.last ?_
  exact congrArg pure assembled

end

/-- What an attribute holds: a pointer, or the value of a flattened body. -/
def attributeValue (r : Representations T V W) (body : List UInt8) (entry : Nat × Option T) :
    Pmc ⊕ V :=
  match entry.2 with
  | none => .inl (getPmcAtOffset body entry.1)
  | some type => .inr (r.value type (readRegion body entry.1 (r.size type)))

/-- The representation of a flattened attribute writes bodies and reads them back. -/
def BodiesReturn (s : Serializer C T U) (r : Representations T V W) (type : T) : Prop :=
  ∃ write, s.serialize type = some write ∧ ∀ body old, body.length = r.size type →
    ∃ stored, Reads (s.deserialize type old) (write body) stored ∧
      stored.length = r.size type ∧ r.value type stored = r.value type body

/-- What every attribute of an object holds comes back from the writer. -/
def ValuesReturn (s : Serializer C T U) (r : Representations T V W) (body : List UInt8)
    (entries : List (Nat × Option T)) : Prop :=
  ∀ entry ∈ entries, match entry.2 with
    | some type => BodiesReturn s r type
    | none => Reads s.readRef (s.writeRef (.attribute (getPmcAtOffset body entry.1)))
        (.attribute (getPmcAtOffset body entry.1))

theorem attributeSize_none (r : Representations T V W) : attributeSize r none = pointerSize :=
  rfl

theorem attributeValue_congr {body other : List UInt8} {entry : Nat × Option T}
    (same : readRegion other entry.1 (attributeSize r entry.2) =
      readRegion body entry.1 (attributeSize r entry.2)) :
    attributeValue r other entry = attributeValue r body entry := by
  rcases entry with ⟨offset, flattened⟩
  cases flattened with
  | none =>
    rw [attributeSize_none] at same
    simp only [attributeValue, getPmcAtOffset, same]
  | some type =>
    rw [attributeSize_some] at same
    simp only [attributeValue, same]

theorem reads_attribute {s : Serializer C T U} {r : Representations T V W}
    {source body : List UInt8} {entry : Nat × Option T} (returns : ValuesReturn s r source [entry])
    (inSource : entry.1 + attributeSize r entry.2 ≤ source.length)
    (inside : entry.1 + attributeSize r entry.2 ≤ body.length) :
    ∃ text cells, writeAttribute s r source entry = .ok text ∧
      cells.length = attributeSize r entry.2 ∧
      Reads (readAttribute s r body entry) text (overwrite body entry.1 cells) ∧
      attributeValue r (overwrite body entry.1 cells) entry = attributeValue r source entry := by
  rcases entry with ⟨offset, flattened⟩
  have returned := returns _ mem_cons_self
  cases flattened with
  | none =>
    rw [attributeSize_none] at inside
    let pointer := getPmcAtOffset source offset
    have cellsLength : (toBytes pointerSize pointer.toNat).length = pointerSize :=
      length_toBytes _ _
    refine ⟨_, toBytes pointerSize pointer.toNat, rfl, cellsLength, returned.last rfl, ?_⟩
    have read := @readRegion_overwrite _ body (toBytes pointerSize pointer.toNat) offset
      (by rwa [cellsLength])
    rw [cellsLength] at read
    have small : pointer.toNat % byteSpan pointerSize = pointer.toNat :=
      mod_eq_of_lt pointer.toNat_lt
    change Sum.inl (getPmcAtOffset _ offset) = Sum.inl pointer
    rw [getPmcAtOffset, read, ofBytes_toBytes, small, UInt64.ofNat_toNat]
  | some type =>
    rw [attributeSize_some] at inside inSource
    rcases returned with ⟨write, writes, bodies⟩
    rcases bodies (readRegion source offset (r.size type)) (readRegion body offset (r.size type))
      (length_readRegion inSource) with ⟨stored, reads, length, value⟩
    refine ⟨write (readRegion source offset (r.size type)), stored, ?_, ?_, reads.last rfl, ?_⟩
    · simp only [writeAttribute, writes]
    · rw [attributeSize_some, length]
    have read := @readRegion_overwrite _ body stored offset (by rwa [length])
    rw [length] at read
    change Sum.inr (r.value type (readRegion _ offset _)) = Sum.inr (r.value type _)
    rw [read, value]

/-- The attributes behind a place; the induction is on the list of their types. -/
theorem reads_attributes
    {source : List UInt8} (flattened : List (Option T)) : ∀ (place : Nat) (body : List UInt8),
    ValuesReturn s r source ((fieldOffsets place (flattened.map (attributeSize r))).zip flattened) →
    place + (flattened.map (attributeSize r)).sum ≤ source.length → body.length = source.length →
    ∃ texts after, ((fieldOffsets place (flattened.map (attributeSize r))).zip flattened).mapM
        (writeAttribute s r source) = .ok texts ∧
      Reads (((fieldOffsets place (flattened.map (attributeSize r))).zip flattened).foldlM
        (readAttribute s r) body) texts.flatten after ∧ (∀ offset size, offset + size ≤ place →
        readRegion after offset size = readRegion body offset size) ∧
      ∀ entry ∈ (fieldOffsets place (flattened.map (attributeSize r))).zip flattened,
        attributeValue r after entry = attributeValue r source entry := by
  induction flattened with
  | nil =>
    intro place body _ _ _
    exact ⟨[], body, rfl, Reads.pure body, fun _ _ _ => rfl, nofun⟩
  | cons next flattened ih =>
    intro place body returns room sameLength
    simp only [map_cons, fieldOffsets, zip_cons_cons, sum_cons] at returns room ⊢
    have inSource : place + attributeSize r next ≤ source.length := by omega
    rcases @reads_attribute _ _ _ _ _ s r source body (place, next)
      (fun entry member => returns entry (mem_singleton.mp member ▸ mem_cons_self))
      inSource (sameLength ▸ inSource) with ⟨text, cells, writes, cellsLength, reads, value⟩
    have inside : place + cells.length ≤ body.length := by
      rw [cellsLength, sameLength]
      exact inSource
    rcases ih (place + attributeSize r next) (overwrite body place cells)
      (forall_mem_cons.mp returns).2
      (by rwa [add_assoc]) ((overwrite_length inside).trans sameLength) with
      ⟨texts, after, restWrites, restReads, kept, values⟩
    refine ⟨text :: texts, after, ?_, ?_, ?_, ?_⟩
    · rw [mapM_cons, writes, ok_bind, restWrites]
      rfl
    · rw [foldlM_cons, flatten_cons]
      exact reads.bind restReads
    · intro offset size before
      rw [kept offset size (le_add_right_of_le before),
        readRegion_overwrite_of_disjoint inside (.inl before)]
    intro entry member
    rcases mem_cons.mp member with rfl | later
    · exact (attributeValue_congr (kept place _ le_rfl)).trans value
    · exact values entry later

/-- Two layouts are the same: the memory and the lists that the code goes through. -/
structure SameLayout (data layout : ReprData C T) : Prop where
  attributes : layout.numAttributes = data.numAttributes
  offsets : layout.attributeOffsets = data.attributeOffsets
  flattened : layout.flattenedStables = data.flattenedStables
  size : layout.allocationSize = data.allocationSize
  mi : layout.mi = data.mi
  marked : ∀ offset, offset ∈ layout.gcPmcMarkOffsets ↔ offset ∈ data.gcPmcMarkOffsets
  initialized : layout.initializeSlots = data.initializeSlots
  marks : layout.gcMarkSlots = data.gcMarkSlots
  cleanup : layout.gcCleanupSlots = data.gcCleanupSlots
  unboxInt : layout.unboxIntSlot = data.unboxIntSlot
  unboxNum : layout.unboxNumSlot = data.unboxNumSlot
  unboxStr : layout.unboxStrSlot = data.unboxStrSlot
  unboxed : layout.unboxTable = data.unboxTable
  autoViv : layout.autoVivValues = data.autoVivValues
  names : layout.nameToIndexMapping = data.nameToIndexMapping

/-- The layout is read as written, and with it every object whose values return. -/
def Survives (s : Serializer C T U) (r : Representations T V W) (bits : T → Nat)
    (data : ReprData C T) : Prop :=
  ∃ layout, Reads (deserializeReprData s r bits) (serializeReprData s data) layout ∧
    SameLayout data layout ∧ ∀ source body, source.length + headerSize = data.allocationSize →
      body.length = source.length →
      ValuesReturn s r source (data.attributeOffsets.zip data.flattenedStables) →
      ∃ text after, serialize s r data source = .ok text ∧
        Reads (deserialize s r layout body) text after ∧
        ∀ entry ∈ data.attributeOffsets.zip data.flattenedStables,
          attributeValue r after entry = attributeValue r source entry

theorem mem_offsetsOf {kind : Option T → Bool} {offset : Nat} :
    offset ∈ offsetsOf r kind flattened ↔ ∃ (i : Nat) (next : Option T),
      flattened[i]? = some next ∧ kind next = true ∧
        offset = ((flattened.map (attributeSize r)).take i).sum := by
  rw [offsetsOf, mem_map]
  constructor
  · rintro ⟨⟨place, next⟩, member, rfl⟩
    obtain ⟨inZip, isKind⟩ := mem_filter.mp member
    obtain ⟨i, both⟩ := mem_iff_getElem?.mp inZip
    obtain ⟨placed, found⟩ := getElem?_zip_eq_some.mp both
    have below := (List.getElem?_eq_some_iff.mp found).1
    rw [getElem?_fieldOffsets 0 _ (by rwa [length_map]), Nat.zero_add] at placed
    exact ⟨i, next, found, isKind, (Option.some.inj placed).symm⟩
  rintro ⟨i, next, found, isKind, rfl⟩
  have below := (List.getElem?_eq_some_iff.mp found).1
  refine ⟨(((flattened.map (attributeSize r)).take i).sum, next),
    mem_filter.mpr ⟨mem_iff_getElem?.mpr ⟨i, getElem?_zip_eq_some.mpr ⟨?_, found⟩⟩, isKind⟩, rfl⟩
  rw [getElem?_fieldOffsets 0 _ (by rwa [length_map]), zero_add]

theorem slot_of_offset
    (positive : ∀ next ∈ flattened, 0 < attributeSize r next) {i j : Nat} {first second : Option T}
    (here : flattened[i]? = some first) (there : flattened[j]? = some second)
    (same : ((flattened.map (attributeSize r)).take i).sum =
      ((flattened.map (attributeSize r)).take j).sum) : first = second := by
  have sized : ∀ {k : Nat} {next : Option T}, flattened[k]? = some next →
      (flattened.map (attributeSize r))[k]? = some (attributeSize r next) ∧
        0 < attributeSize r next :=
    fun found => ⟨by rw [getElem?_map, found]; rfl, positive _ (mem_of_getElem? found)⟩
  rcases lt_trichotomy i j with before | rfl | behind
  · have apart := sum_take_add_le before (sized here).1
    have room := (sized here).2
    omega
  · exact Option.some.inj (here.symm.trans there)
  · have apart := sum_take_add_le behind (sized there).1
    have room := (sized there).2
    omega

theorem marked_iff (positive : ∀ next ∈ flattened, 0 < attributeSize r next) :
    (∀ offset, offset ∈ offsetsOf r Option.isNone flattened ↔
        offset ∈ offsetsOf r (notedForMarking r) flattened) ↔
      ∀ type, some type ∈ flattened → r.boxedPrimitive type ≠ .none := by
  constructor
  · intro same type member unboxed
    obtain ⟨i, here⟩ := mem_iff_getElem?.mp member
    have isNoted : notedForMarking r (some type) = true := by simp [notedForMarking, unboxed]
    have noted := (@mem_offsetsOf _ _ _ r _ _ _).mpr ⟨i, some type, here, isNoted, rfl⟩
    obtain ⟨j, next, there, isNone, offset⟩ := mem_offsetsOf.mp ((same _).mpr noted)
    rw [← slot_of_offset positive here there offset] at isNone
    cases isNone
  intro boxes offset
  have agree : ∀ next ∈ flattened, next.isNone = notedForMarking r next := by
    intro next member
    cases next with
    | none => rfl
    | some type => simp [notedForMarking, boxes type member]
  rw [mem_offsetsOf, mem_offsetsOf]
  constructor
  · rintro ⟨i, next, found, isNone, rfl⟩
    exact ⟨i, next, found, agree next (mem_of_getElem? found) ▸ isNone, rfl⟩
  · rintro ⟨i, next, found, noted, rfl⟩
    exact ⟨i, next, found, agree next (mem_of_getElem? found) ▸ noted, rfl⟩

/-- Attributes in an array, a list, and sizes that do not depend on the STable. -/
structure Settled (s : Serializer C T U) (r : Representations T V W) (bits : T → Nat)
    (data : ReprData C T) : Prop where
  noted : Noted r data
  offsets : data.attributeOffsets = fieldOffsets 0 (data.flattenedStables.map (attributeSize r))
  size : data.allocationSize = (data.flattenedStables.map (attributeSize r)).sum + headerSize
  autoViv : data.autoVivValues.length = data.flattenedStables.length
  reported : ∀ type, some type ∈ data.flattenedStables →
    bits type = (r.getStorageSpec type).bits ∧ 0 < r.size type
  refs : RefsReturn s data
  countable : Countable r data

theorem unboxTable_restored
    (noted : Noted r data) (length : (restored r data).numAttributes = data.numAttributes) :
    (restored r data).unboxTable = data.unboxTable := by
  by_cases absent : data.unboxSlots = []
  · have none : data.unboxTable = [] := by rw [ReprData.unboxTable, if_pos absent]
    rw [ReprData.unboxTable]
    exact if_pos none |>.trans none.symm
  have whole := length_unboxTable noted absent
  have present : (restored r data).unboxSlots ≠ [] := by
    intro none
    have empty : data.unboxTable.length = 0 := congrArg List.length none
    rw [ReprData.unboxTable, if_neg absent, length_append] at empty
    exact absent (length_eq_zero_iff.mp (Nat.add_eq_zero_iff.mp empty).1)
  rw [ReprData.unboxTable, if_neg present, length]
  change data.unboxTable ++ replicate (data.numAttributes - data.unboxTable.length) _ = _
  rw [whole, Nat.sub_self, replicate_zero, append_nil]

/-- A settled layout survives exactly when every flattened attribute boxes a primitive. -/
theorem Settled.survives_iff (settled : Settled s r bits data) : Survives s r bits data ↔
      ∀ type, some type ∈ data.flattenedStables → r.boxedPrimitive type ≠ .none := by
  have attributes : data.flattenedStables.length = data.numAttributes := by
    rw [ReprData.numAttributes, settled.offsets, length_fieldOffsets, length_map]
  have reads := reads_reprData settled.noted attributes (settled.autoViv.trans attributes)
    (fun type member => (settled.reported type member).1) settled.refs settled.countable
  have positive : ∀ next ∈ data.flattenedStables, 0 < attributeSize r next := by
    intro next member
    cases next with
    | none => exact zero_lt_succ 7
    | some type =>
      rw [attributeSize_some]
      exact (settled.reported type member).2
  rw [← marked_iff positive, ← settled.noted.pmcs]
  constructor
  · rintro ⟨layout, readsLayout, same, -⟩
    have unique := (readsLayout []).symm.trans (reads [])
    cases Option.some.inj unique
    exact same.marked
  intro marked
  refine ⟨restored r data, reads, ?_, ?_⟩
  · have offsets : (restored r data).attributeOffsets = data.attributeOffsets :=
      settled.offsets.symm
    have length := congrArg length offsets
    exact
      { attributes := length, offsets, flattened := rfl, mi := rfl, marked
        size := (add_comm _ _).trans settled.size.symm
        initialized := settled.noted.starts.symm, marks := settled.noted.marks.symm
        cleanup := settled.noted.cleanup.symm, unboxInt := rfl, unboxNum := rfl
        unboxStr := rfl, unboxed := unboxTable_restored settled.noted length
        autoViv := rfl, names := rfl }
  intro source body fits sameLength returns
  rw [settled.offsets] at returns ⊢
  have room : 0 + (data.flattenedStables.map (attributeSize r)).sum ≤ source.length := by
    have size := settled.size
    omega
  rcases reads_attributes data.flattenedStables 0 body returns room sameLength with
    ⟨texts, after, writes, readsBody, -, values⟩
  refine ⟨texts.flatten, after, ?_, readsBody, values⟩
  rw [serialize, settled.offsets, writes]
  rfl

/-- The layout that is computed for a class is read as it was written, and its objects with
it, exactly when no attribute is flattened that boxes no primitive. -/
theorem layout_survives_iff [DecidableEq C] (s : Serializer C T U) (r : Representations T V W)
    (h : Hierarchy C T Pmc) (target : C) (bits : T → Nat) (data : ReprData C T)
    (done : computeAllocationStrategy r h target = .ok data)
    (reported : ∀ type, r.inlined type = true →
      bits type = (r.getStorageSpec type).bits ∧ 0 < r.size type)
    (refs : RefsReturn s data) (countable : Countable r data) :
    Survives s r bits data ↔ ∀ attr ∈ slotAttributes h target, ∀ type,
      flattenedType r attr = some type → r.boxedPrimitive type ≠ .none := by
  have computed := computed_of_strategy done
  have sizes : data.flattenedStables.map (attributeSize r) =
      (slotAttributes h target).map (storageSize r) := by
    rw [computed.laidOut.flattened, map_map]
    rfl
  have settled : Settled s r bits data :=
    { noted := noted_of_strategy done
      offsets := sizes ▸ computed.laidOut.offsets
      size := sizes ▸ computed.size
      autoViv := by rw [computed.laidOut.autoViv, computed.laidOut.flattened, length_map,
        length_map]
      reported := by
        intro type member
        rw [computed.laidOut.flattened] at member
        obtain ⟨attr, -, flattened⟩ := mem_map.mp member
        exact reported type (Option.filter_eq_some_iff.mp flattened).2
      refs, countable }
  rw [settled.survives_iff, computed.laidOut.flattened]
  constructor
  · intro boxes attr member type flattened
    exact boxes type (mem_map.mpr ⟨attr, member, flattened⟩)
  intro boxes type member
  obtain ⟨attr, inClass, flattened⟩ := mem_map.mp member
  exact boxes attr inClass type flattened

/-- What the writer of tokens writes. -/
inductive Token (C T : Type)
  | int (value : Int)
  | ref (value : Ref C)
  | stable (type : T)
  | body (bytes : List UInt8)

/-- Every value and every body is one token. -/
def tokens (C T : Type) : Serializer C T (Token C T) where
  writeInt value := [.int value]
  readInt
    | .int value :: rest => some (value, rest)
    | _ => none
  writeRef value := [.ref value]
  readRef
    | .ref value :: rest => some (value, rest)
    | _ => none
  writeStableRef type := [.stable type]
  readStableRef
    | .stable type :: rest => some (type, rest)
    | _ => none
  serialize _ := some fun bytes => [.body bytes]
  deserialize _ _
    | .body bytes :: rest => some (bytes, rest)
    | _ => none
  reads_int _ _ _ _ := rfl
  reads_stableRef _ _ := rfl

theorem refsReturn_tokens (data : ReprData C T) : RefsReturn (tokens C T) data :=
  ⟨fun _ _ _ => rfl, fun _ _ _ => rfl, fun _ _ _ => rfl⟩

theorem layout_survives_child : Survives (tokens (Fin 2) Unit) nativeInt (fun _ => 64) childData :=
  (layout_survives_iff (tokens (Fin 2) Unit) nativeInt parentAndChild 1 (fun _ => 64) childData rfl
    (fun _ _ => ⟨rfl, zero_lt_succ 7⟩) (refsReturn_tokens childData)
    ⟨by decide, by decide, fun _ => Nat.lt_of_sub_eq_succ rfl⟩).mpr
    (fun _ _ _ _ => BoxedPrimitive.noConfusion)

/-- The native call representation: eight fields, stored inline, and no boxed primitive. -/
def nativeCall : Representations Unit (List UInt8) Unit where
  size _ := 64
  inlined _ := true
  boxedPrimitive _ := .none
  reprId _ := 11
  initializes _ := true
  marks _ := false
  cleansUp _ := true
  copyTo _ _ source _ := (source ++ List.replicate 64 0).take 64
  value _ body := (body ++ List.replicate 64 0).take 64
  length_copyTo _ _ _ _ := by simp
  value_copyTo _ _ source _ := by simp
  pmcNull := 4096

def callingClass : Hierarchy Unit Unit Pmc where
  name _ := "Native"
  parents _ := []
  mro _ := [()]
  attributes _ :=
    [{ name := "$!call", type := some (), boxTarget := true, autoVivContainer := none }]
  computed _ := rfl

/-- The offset of the call is noted for marking, like that of a pointer. -/
def callData : ReprData Unit Unit :=
  { allocationSize := 80, attributeOffsets := [0], flattenedStables := [some ()], mi := false
    autoVivValues := [none], unboxIntSlot := none, unboxNumSlot := none, unboxStrSlot := none
    unboxSlots := [(11, 0)], nameToIndexMapping := [((), some [("$!call", 0)])]
    gcPmcMarkOffsets := [0], initializeSlots := [0], gcMarkSlots := [], gcCleanupSlots := [0] }

theorem native_call_loses_mark :
    computeAllocationStrategy nativeCall callingClass () = .ok callData ∧
      ¬Survives (tokens Unit Unit) nativeCall (fun _ => 512) callData := by
  have settled : Settled (tokens Unit Unit) nativeCall (fun _ => 512) callData :=
    { noted := @noted_of_strategy _ _ _ _ _ nativeCall callingClass () callData rfl
      offsets := rfl, size := rfl, autoViv := rfl
      reported := fun _ _ => ⟨rfl, zero_lt_succ 63⟩
      refs := refsReturn_tokens callData
      countable := ⟨by decide, by decide, fun _ => Nat.lt_of_sub_eq_succ rfl⟩ }
  refine ⟨rfl, fun survives => ?_⟩
  exact settled.survives_iff.mp survives () (by decide) rfl

end RakudoStar.P6opaque
