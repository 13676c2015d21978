import RakudoStar.SixModel.Hierarchy
import RakudoStar.Foundation.Region
import RakudoStar.Foundation.LittleEndian

/-!
# The layout of P6opaque objects

`index_mapping_and_flat_list` and `compute_allocation_strategy` of `P6opaque.c`: walking the MRO
from its end, every attribute gets a slot of the object body, inline or a pointer. Slots are
looked up by class and name, and handed out as hints for the objects of subclasses.
-/

namespace RakudoStar.P6opaque

open SixModel
open Foundation

/-- A PMC pointer; 0 is the null pointer. -/
abbrev Pmc := UInt64

def pointerSize : Nat := 8

/-- `sizeof(P6opaqueInstance)`: the two pointers in front of every body. -/
def headerSize : Nat := 16

/-- `STORAGE_SPEC_BP_NONE`, `_INT`, `_NUM` and `_STR`. -/
inductive BoxedPrimitive
  | none
  | int
  | num
  | str
  deriving DecidableEq, Repr

/-- A `storage_spec`. -/
structure StorageSpec where
  inlined : Bool
  bits : Nat
  boxedPrimitive : BoxedPrimitive

/-- Representations called through STables `T`, for values `V` and allocators `W`. -/
structure Representations (T V W : Type) where
  size : T → Nat
  inlined : T → Bool
  boxedPrimitive : T → BoxedPrimitive
  reprId : T → Nat
  initializes : T → Bool
  marks : T → Bool
  cleansUp : T → Bool
  copyTo : T → W → List UInt8 → List UInt8 → List UInt8
  value : T → List UInt8 → V
  length_copyTo : ∀ type world source target, (copyTo type world source target).length = size type
  value_copyTo : ∀ type world source target,
    value type (copyTo type world source target) = value type source
  pmcNull : Pmc

/-- `REPR(type)->get_storage_spec(interp, STABLE(type))`. -/
def Representations.getStorageSpec {T V W : Type} (r : Representations T V W) (type : T) :
    StorageSpec :=
  { inlined := r.inlined type
    bits := r.size type * 8
    boxedPrimitive := r.boxedPrimitive type }

section

variable {C T : Type} [DecidableEq C]

/-- The name map of a class, `none` for `PMCNULL`; later attributes come first. -/
abbrev NameMap := Option (List (String × Nat))

/-- The locals of `index_mapping_and_flat_list`. -/
structure IndexMapping (C T : Type) where
  flatList : List (Attribute T Pmc)
  nameMaps : List (C × NameMap)
  currentSlot : Nat
  mi : Bool

/-- Allocate a slot for an attribute of the current class. -/
def mapAttribute (state : NameMap × Nat) (attr : Attribute T Pmc) : NameMap × Nat :=
  (some ((attr.name, state.2) :: state.1.getD []), state.2 + 1)

/-- One round of the walk over the MRO. -/
def mapClass (h : Hierarchy C T Pmc) (m : IndexMapping C T) (current : C) : IndexMapping C T :=
  let attributes := h.attributes current
  let mapped := attributes.foldl mapAttribute (none, m.currentSlot)
  { flatList := m.flatList ++ attributes
    nameMaps := m.nameMaps ++ [(current, mapped.1)]
    currentSlot := mapped.2
    mi := m.mi || decide ((h.parents current).length > 1) }

/-- `index_mapping_and_flat_list`, from the end of the MRO to its front. -/
def indexMappingAndFlatList (h : Hierarchy C T Pmc) (target : C) : IndexMapping C T :=
  (h.mro target).reverse.foldl (mapClass h)
    { flatList := [], nameMaps := [], currentSlot := 0, mi := false }

end

/-- `P6opaqueREPRData`. A null array is an empty list, a slot of -1 is `none`. -/
structure ReprData (C T : Type) where
  allocationSize : Nat
  attributeOffsets : List Nat
  flattenedStables : List (Option T)
  mi : Bool
  autoVivValues : List (Option Pmc)
  unboxIntSlot : Option Nat
  unboxNumSlot : Option Nat
  unboxStrSlot : Option Nat
  unboxSlots : List (Nat × Nat)
  nameToIndexMapping : List (C × NameMap)
  gcPmcMarkOffsets : List Nat
  initializeSlots : List Nat
  gcMarkSlots : List Nat
  gcCleanupSlots : List Nat

variable {C T V W : Type}

section

variable [DecidableEq C]

def ReprData.numAttributes (data : ReprData C T) : Nat :=
  data.attributeOffsets.length

def noteBoxTarget (slot : Nat) (primitive : BoxedPrimitive) (data : ReprData C T) :
    Except String (ReprData C T) :=
  match primitive with
  | .int =>
    if data.unboxIntSlot.isSome then .error "Duplicate box_target for native int"
    else .ok { data with unboxIntSlot := some slot }
  | .num =>
    if data.unboxNumSlot.isSome then .error "Duplicate box_target for native num"
    else .ok { data with unboxNumSlot := some slot }
  | .str =>
    if data.unboxStrSlot.isSome then .error "Duplicate box_target for native str"
    else .ok { data with unboxStrSlot := some slot }
  | .none => .ok data

def noteFlattened (r : Representations T V W) (slot : Nat) (type : T) (boxTarget : Bool)
    (data : ReprData C T) : Except String (ReprData C T) :=
  let noted : ReprData C T :=
    { data with
      initializeSlots := data.initializeSlots ++ if r.initializes type then [slot] else []
      gcMarkSlots := data.gcMarkSlots ++ if r.marks type then [slot] else []
      gcCleanupSlots := data.gcCleanupSlots ++ if r.cleansUp type then [slot] else [] }
  if boxTarget then do
    let targeted ← noteBoxTarget slot (r.boxedPrimitive type) noted
    .ok { targeted with unboxSlots := targeted.unboxSlots ++ [(r.reprId type, slot)] }
  else .ok noted

def noteAttribute (r : Representations T V W) (slot : Nat) (flattened : Option T)
    (boxTarget : Bool) (data : ReprData C T) : Except String (ReprData C T) :=
  match flattened with
  | none => .ok data
  | some type => noteFlattened r slot type boxTarget data

def flattenedType (r : Representations T V W) (attr : Attribute T Pmc) : Option T :=
  attr.type.filter fun type => (r.getStorageSpec type).inlined

/-- The bytes an attribute takes in the body, `bits / 8`. -/
def attributeSize (r : Representations T V W) (flattened : Option T) : Nat :=
  match flattened with
  | none => pointerSize * 8 / 8
  | some type => (r.getStorageSpec type).bits / 8

/-- Arrange the allocation of one attribute; the number is `cur_size`. -/
def allocateAttribute (r : Representations T V W) (state : ReprData C T × Nat)
    (attr : Attribute T Pmc) : Except String (ReprData C T × Nat) := do
  let slot := state.1.attributeOffsets.length
  let flattened := flattenedType r attr
  let noted ← noteAttribute r slot flattened attr.boxTarget state.1
  -- a flattened type that boxes no primitive is treated as a pointer here too
  let unboxed := (flattened.map r.boxedPrimitive).getD .none
  .ok ({ noted with
      attributeOffsets := state.1.attributeOffsets ++ [state.2]
      flattenedStables := state.1.flattenedStables ++ [flattened]
      autoVivValues := state.1.autoVivValues ++
        [if unboxed = .none then attr.autoVivContainer else none]
      gcPmcMarkOffsets := noted.gcPmcMarkOffsets ++ if unboxed = .none then [state.2] else [] },
    state.2 + attributeSize r flattened)

/-- The data before any attribute is allocated. -/
def startData (m : IndexMapping C T) : ReprData C T :=
  { allocationSize := headerSize, attributeOffsets := [], flattenedStables := [], mi := m.mi
    autoVivValues := [], unboxIntSlot := none, unboxNumSlot := none, unboxStrSlot := none
    unboxSlots := [], nameToIndexMapping := m.nameMaps, gcPmcMarkOffsets := []
    initializeSlots := [], gcMarkSlots := [], gcCleanupSlots := [] }

def computeAllocationStrategy (r : Representations T V W) (h : Hierarchy C T Pmc)
    (target : C) : Except String (ReprData C T) := do
  let m := indexMappingAndFlatList h target
  if m.nameMaps = [] then .ok (startData m)
  else
    let final ← m.flatList.foldlM (allocateAttribute r) (startData m, 0)
    .ok { final.1 with allocationSize := final.2 + headerSize }

/-- `try_get_slot`, `none` for -1. -/
def tryGetSlot (h : Hierarchy C T Pmc) (data : ReprData C T) (classKey : C) (name : String) :
    Except String (Option Nat) :=
  match data.nameToIndexMapping.find? fun entry => entry.1 = classKey with
  | none => .ok none
  | some (_, some nameMap) => .ok (nameMap.lookup name)
  | some (_, none) =>
    let className := h.name classKey
    .error s!"Null attribute map for P6opaque in class '{className}'"

def noHint : Int := -1

/-- `hint_for`, on the data of a class. -/
def hintFor (r : Representations T V W) (h : Hierarchy C T Pmc) (target classKey : C)
    (name : String) : Except String Int := do
  let data ← computeAllocationStrategy r h target
  let slot ← tryGetSlot h data classKey name
  match slot with
  | some slot => .ok slot
  | none => .ok noHint

end

/-- How an accessor fails: it throws a message, or reads an array out of its
bounds. -/
inductive Failure
  | thrown (message : String)
  | outOfBounds
  deriving DecidableEq, Repr

/-- An object: its type, whether it is the type object itself, and the bytes
behind its header. -/
structure Opaque (C : Type) where
  type : C
  isTypeObject : Bool
  body : List UInt8
  deriving DecidableEq

/-- What getting an attribute gives: a pointer, or a new box and its body. -/
inductive Fetched (T : Type)
  | pmc (pointer : Pmc)
  | box (type : T) (body : List UInt8)
  deriving DecidableEq

def getPmcAtOffset (body : List UInt8) (offset : Nat) : Pmc :=
  UInt64.ofNat (ofBytes (readRegion body offset pointerSize))

def setPmcAtOffset (body : List UInt8) (offset : Nat) (value : Pmc) : List UInt8 :=
  overwrite body offset (toBytes pointerSize value.toNat)

section

variable [DecidableEq C]

/-- The exceptions of the layout, as accessors throw them. -/
def throwing {α : Type} (result : Except String α) : Except Failure α :=
  result.mapError .thrown

/-- `allocate`: a zeroed body of the allocation size. -/
def allocate (r : Representations T V W) (h : Hierarchy C T Pmc) (type : C) :
    Except Failure (Opaque C) := do
  let data ← throwing (computeAllocationStrategy r h type)
  .ok { type, isTypeObject := false
        body := List.replicate (data.allocationSize - headerSize) 0 }

/-- `slot = hint >= 0 && !(repr_data->mi) ? hint : try_get_slot(...)`. -/
def resolveSlot (h : Hierarchy C T Pmc) (data : ReprData C T) (classHandle : C)
    (name : String) (hint : Int) : Except String (Option Nat) :=
  if hint ≥ 0 ∧ data.mi = false then .ok (some hint.toNat)
  else tryGetSlot h data classHandle name

def noSuchAttribute (h : Hierarchy C T Pmc) (action : String) (classHandle : C)
    (name : String) : Failure :=
  let className := h.name classHandle
  .thrown (s!"Can not {action} non-existent attribute '{name}' " ++ s!"on class '{className}'")

/-- The slot of an attribute, its offset and its flattened type. -/
def locate (r : Representations T V W) (h : Hierarchy C T Pmc) (object : Opaque C)
    (action : String) (classHandle : C) (name : String) (hint : Int) :
    Except Failure (ReprData C T × Nat × Nat × Option T) := do
  let data ← throwing (computeAllocationStrategy r h object.type)
  match ← throwing (resolveSlot h data classHandle name hint) with
  | none => .error (noSuchAttribute h action classHandle name)
  | some slot =>
    match data.attributeOffsets[slot]?, data.flattenedStables[slot]? with
    | some offset, some flattened => .ok (data, slot, offset, flattened)
    | _, _ => .error .outOfBounds

/-- `get_attribute_boxed`; `fresh` is what is allocated, `world` what copying takes. -/
def getAttributeBoxed (r : Representations T V W) (h : Hierarchy C T Pmc)
    (object : Opaque C) (classHandle : C) (name : String) (hint : Int) (fresh : Pmc)
    (world : W) : Except Failure (Opaque C × Fetched T) := do
  let (data, slot, offset, flattened) ← locate r h object "get" classHandle name hint
  match flattened with
  | none =>
    let result := getPmcAtOffset object.body offset
    if result ≠ 0 then .ok (object, .pmc result)
    else
      -- a null slot is vivified with a copy of its container
      match data.autoVivValues[slot]? with
      | some (some _) =>
        .ok ({ object with body := setPmcAtOffset object.body offset fresh }, .pmc fresh)
      | _ => .ok (object, .pmc r.pmcNull)
  | some type =>
    let stored := readRegion object.body offset (r.size type)
    let box := r.copyTo type world stored (List.replicate (r.size type) 0)
    .ok (object, .box type box)

end

end RakudoStar.P6opaque
