import RakudoStar.Freeze.Freezer

/-!
# Thawing

`ImageIOThaw` keeps the PMCs it comes upon in the place that the id says, and the places of
those it created on another list. PMCs are numbers into memory.
-/

namespace RakudoStar.Freeze

open Packfile

/-- A PMC that was created, with what its `thaw` and `visit` have shifted. -/
structure Created where
  baseType : Word
  items : List (Item Nat)
  metadata : Option Nat

/-- The table that an image is thawed from: its strings and its PMCs' objects. -/
structure ThawTable where
  strings : List (Option PStr)
  lists : List (List (Option Nat))

/-- `ImageIOThaw` from its cursor on, with the memory and the PMCs that were called. -/
structure Thawer where
  image : List UInt8
  seen : List (Option Nat)
  todo : List Int
  heap : List Created
  thawed : List Nat
  finished : List Nat

/-- `get_pmc_keyed_int` of a resizable PMC array. -/
def getPmcKeyed (array : List (Option Nat)) (key : Int) : Except Fault (Option Nat) :=
  let key := if key < 0 then key + array.length else key
  if key < 0 then
    .error (.exception "ResizablePMCArray: index out of bounds!")
  else
    .ok (array[key.toNat]?.getD none)

/-- `set_pmc_keyed_int` of a resizable PMC array. -/
def setPmcKeyed (array : List (Option Nat)) (key : Int) (src : Option Nat) :
    Except Fault (List (Option Nat)) :=
  let key := if key < 0 then key + array.length else key
  if key < 0 then
    .error (.exception "ResizablePMCArray: index out of bounds!")
  else
    let array := array ++ List.replicate (key.toNat + 1 - array.length) none
    .ok (array.set key.toNat src)

def packIdPmcId (n : Word) : Nat :=
  n.toNat / 4

def packIdFlags (n : Word) : Nat :=
  (n &&& 3).toNat

namespace Thawer

variable (table : Option ThawTable) (vtableMax : Int) (t : Thawer)

def shiftInteger : Except Fault (Word × Thawer) := do
  let (value, image) ← fetchOpcode t.image
  .ok (value, { t with image })

def shiftFloat : Except Fault (FloatVal × Thawer) :=
  t.shiftInteger

def shiftString : Except Fault (Option PStr × Thawer) := do
  let inline (t : Thawer) : Except Fault (Option PStr × Thawer) := do
    let (value, image) ← fetchString t.image
    .ok (value, { t with image })
  match table with
  | some table =>
    let (i, t) ← t.shiftInteger
    if i.toInt ≥ 0 then
      match table.strings[i.toNat]? with
      | some value => .ok (value, t)
      | none => .error .outside
    else
      inline t
  | none => inline t

/-- A reference to an object of an earlier constant. -/
def shiftBackref (id : Int) : Except Fault (Option Nat × Thawer) := do
  let (constno, t) ← t.shiftInteger
  let (idx, t) ← t.shiftInteger
  match table with
  | none => .error .outside
  | some table =>
    match table.lists[constno.toNat]? with
    | none => .error .outside
    | some olist =>
      let pmc ← getPmcKeyed olist idx.toInt
      let seen ← setPmcKeyed t.seen (id - 1) pmc
      .ok (pmc, { t with seen })

/-- A PMC that is met for the first time. -/
def shiftNormal (id : Int) : Except Fault (Option Nat × Thawer) := do
  let (type, t) ← t.shiftInteger
  if type.toInt ≤ 0 ∨ type.toInt > vtableMax then
    .error (.exception s!"Unknown PMC type to thaw {type.toInt}")
  else
    let pmc := t.heap.length
    let heap := t.heap ++ [{ baseType := type, items := [], metadata := none }]
    let seen ← setPmcKeyed t.seen (id - 1) (some pmc)
    .ok (some pmc, { t with heap, seen, todo := t.todo ++ [id - 1] })

def shiftPmc : Except Fault (Option Nat × Thawer) := do
  let (n, t) ← t.shiftInteger
  let id := packIdPmcId n
  if packIdFlags n = packIdSeen then
    if id ≠ 0 then
      let pmc ← getPmcKeyed t.seen (id - 1)
      .ok (pmc, t)
    else
      .ok (none, t)
  else if packIdFlags n = packIdBackref then
    t.shiftBackref table id
  else if packIdFlags n = packIdNormal then
    t.shiftNormal vtableMax id
  else
    .error (.exception s!"Unknown PMC id args thaw {packIdFlags n}")

/-- `VTABLE_thaw` and `VTABLE_visit` of a type. -/
def runThawing : Thawing → Thawer → Except Fault (List (Item Nat) × Thawer)
  | .done, t => .ok ([], t)
  | .shiftInteger next, t => do
    let (value, t) ← t.shiftInteger
    let (items, t) ← runThawing (next value) t
    .ok (.integer value :: items, t)
  | .shiftFloat next, t => do
    let (value, t) ← t.shiftFloat
    let (items, t) ← runThawing (next value) t
    .ok (.float value :: items, t)
  | .shiftString next, t => do
    let (value, t) ← t.shiftString table
    let (items, t) ← runThawing (next (text value)) t
    .ok (.string value :: items, t)
  | .shiftPmc next, t => do
    let (value, t) ← t.shiftPmc table vtableMax
    let (items, t) ← runThawing (next value.isNone) t
    .ok (.pmc value :: items, t)

/-- Thaw the PMC that a place on the todo list stands for. -/
def thawObject (thaw : Word → Thawing) (i : Nat) (idx : Int) : Except Fault Thawer := do
  let current ← getPmcKeyed t.seen idx
  match current with
  | none => .error (.exception s!"NULL current PMC at {i} in thaw")
  | some current =>
    match t.heap[current]? with
    | none => .error .outside
    | some created =>
      let (items, t) ← runThawing table vtableMax (thaw created.baseType)
        { t with thawed := t.thawed ++ [current] }
      let (metadata, t) ← t.shiftPmc table vtableMax
      .ok { t with heap := t.heap.modify current fun created => { created with items, metadata } }

/-- The loop over the todo list; the image's size bounds the rounds. -/
def thawLoop (thaw : Word → Thawing) : Nat → Nat → Thawer → Except Fault Thawer
  | rounds, i, t =>
    match t.todo[i]? with
    | none => .ok t
    | some idx =>
      match rounds with
      | 0 => .error .outside
      | rounds + 1 => do
        let t ← t.thawObject table vtableMax thaw i idx
        thawLoop thaw rounds (i + 1) t

/-- `VTABLE_thawfinish` of the PMCs on the todo list. -/
def finish : List Int → Thawer → Except Fault Thawer
  | [], t => .ok t
  | idx :: todo, t => do
    let current ← getPmcKeyed t.seen idx
    match current with
    | none => .error .outside
    | some current => finish todo { t with finished := t.finished ++ [current] }

end Thawer

/-- The header of an image that is not part of a constant table. -/
def skipHeader (header : Header) (table : Option ThawTable) (image : List UInt8) :
    Except Fault (List UInt8) :=
  if table.isSome then
    .ok image
  else if image.length < packfileHeaderBytes then
    .error (.exception (s!"PackFile_unpack: Buffer length {image.length} is shorter than " ++
      s!"PACKFILE_HEADER_BYTES {packfileHeaderBytes}."))
  else do
    header.validate (image.take packfileHeaderBytes)
    .ok (image.drop headerLength)

/-- `ImageIOThaw.set_string_native`, in a memory with some PMCs. -/
def thaw (header : Header) (table : Option ThawTable) (vtableMax : Int) (types : Word → Thawing)
    (heap : List Created) (image : List UInt8) : Except Fault Thawer := do
  let cursor ← skipHeader header table image
  let start : Thawer :=
    { image := cursor, seen := [], todo := [], heap, thawed := [], finished := [] }
  let (_, t) ← start.shiftPmc table vtableMax
  let t ← t.thawLoop table vtableMax types image.length 0
  t.finish t.todo

end RakudoStar.Freeze
