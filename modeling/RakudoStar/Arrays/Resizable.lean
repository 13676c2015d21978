import RakudoStar.Arrays.Qrpa

/-!
# Resizable arrays of PMCs

A `ResizablePMCArray` keeps its elements at the beginning of a block of slots, whose size the
threshold gives; a null pointer in a slot is `none`.
-/

namespace RakudoStar.Arrays.Resizable

open Foundation RakudoStar.Except

variable {α : Type}

/-- The attributes of a `ResizablePMCArray`; there is no block of slots before its first use. -/
structure Rpa (α : Type) where
  size : Int
  threshold : Nat
  pmcArray : Option (List (Option α))
  deriving Repr

def Rpa.new : Rpa α := ⟨0, 0, none⟩

def Rpa.slots (q : Rpa α) : List (Option α) := q.pmcArray.getD []

/-- `data[i] = value` -/
def storeAt (q : Rpa α) (i : Int) (value : Option α) : Except Failure (Rpa α) :=
  if i < 0 then .error .outsideSlots
  else do
    let slots ← store q.slots i.toNat value
    .ok { q with pmcArray := some slots }

/-- `data[i]` -/
def loadAt (q : Rpa α) (i : Int) : Except Failure (Option α) :=
  if i < 0 then .error .outsideSlots else load q.slots i.toNat

/-- `memmove` within the slots; nothing is moved if the count is not positive. -/
def moveSlots (q : Rpa α) (target source count : Int) : Except Failure (Rpa α) :=
  if count ≤ 0 then .ok q
  else do
    let slots ← memmove q.slots target source count.toNat
    .ok { q with pmcArray := some slots }

/-- `set_integer_native` of a `FixedPMCArray`. -/
def setFixed (q : Rpa α) (size : Int) : Except Failure (Rpa α) :=
  if q.size ≠ 0 ∧ size ≠ 0 then .error (.outOfBounds "FixedPMCArray: Can't resize!")
  else if size = 0 then .ok q
  else .ok { q with size, pmcArray := some (List.replicate size.toNat none) }

/-- The threshold after a reallocation for a size above it. -/
def grownThreshold (threshold size : Nat) : Nat :=
  let cur :=
    if threshold < 8192 then if size < 2 * threshold then 2 * threshold else size
    else (size + 4096) / 4096 * 4096
  if cur < 8 then 8 else cur

/-- The slots up to the threshold, null behind them (indeterminate in the code). -/
def reallocated (slots : List (Option α)) (threshold cur : Nat) : List (Option α) :=
  let kept := slots.take threshold
  kept ++ List.replicate (cur - kept.length) none

def setIntegerNative (q : Rpa α) (size : Int) : Except Failure (Rpa α) :=
  if size < 0 then .error (.outOfBounds "ResizablePMCArray: Can't resize!")
  else
    match q.pmcArray with
    | none =>
      if size < 8 then do
        let q ← setFixed q 8
        .ok { q with size, threshold := 8 }
      else do
        let q ← setFixed q size
        .ok { q with threshold := size.toNat }
    | some slots =>
      if size = q.size then .ok q
      else if size ≤ q.threshold then .ok { q with size }
      else
        let cur := grownThreshold q.threshold size.toNat
        .ok ⟨size, cur, some (reallocated slots q.threshold cur)⟩

def getPmcKeyedInt (q : Rpa α) (key : Int) : Except Failure (Option α) :=
  let key := if key < 0 then key + q.size else key
  if key < 0 then .error (.outOfBounds "ResizablePMCArray: index out of bounds!")
  else if q.size ≤ key then .ok none
  else loadAt q key

/-- The room that `set_pmc_keyed_int` makes. -/
def setRoom (q : Rpa α) (key : Int) : Except Failure (Rpa α) :=
  if q.size ≤ key then setIntegerNative q (key + 1) else .ok q

def setPmcKeyedInt (q : Rpa α) (key : Int) (src : Option α) : Except Failure (Rpa α) :=
  let key := if key < 0 then key + q.size else key
  if key < 0 then .error (.outOfBounds "ResizablePMCArray: index out of bounds!")
  else do
    let q ← setRoom q key
    storeAt q key src

/-- `set_pmc` of the elements of another array. -/
def setPmc (q : Rpa α) (values : List (Option α)) : Rpa α :=
  { q with size := values.length, pmcArray := some values }

def deleteKeyedInt (q : Rpa α) (key : Int) : Except Failure (Rpa α) := do
  let q ← moveSlots q key (key + 1) (q.size - 1 - key)
  .ok { q with size := q.size - 1 }

/-- The room that `push_pmc` makes. -/
def pushRoom (q : Rpa α) : Except Failure (Rpa α) :=
  if q.pmcArray.isSome ∧ q.size < q.threshold then .ok { q with size := q.size + 1 }
  else setIntegerNative q (q.size + 1)

def pushPmc (q : Rpa α) (value : Option α) : Except Failure (Rpa α) := do
  let grown ← pushRoom q
  storeAt grown q.size value

def popPmc (q : Rpa α) : Except Failure (Option α × Rpa α) :=
  if q.size = 0 then .error (.outOfBounds "ResizablePMCArray: Can't pop from an empty array!")
  else do
    let data ← loadAt q (q.size - 1)
    .ok (data, { q with size := q.size - 1 })

def doShift (q : Rpa α) : Except Failure (Rpa α) := do
  let q ← moveSlots { q with size := q.size - 1 } 0 1 (q.size - 1)
  storeAt q q.size none

def shiftPmc (q : Rpa α) : Except Failure (Option α × Rpa α) :=
  if q.size = 0 then .error (.outOfBounds "ResizablePMCArray: Can't shift from an empty array!")
  else do
    let data ← loadAt q 0
    let q ← doShift q
    .ok (data, q)

def doUnshift (q : Rpa α) (val : Option α) : Except Failure (Rpa α) := do
  let grown ← setIntegerNative q (q.size + 1)
  let moved ← moveSlots grown 1 0 q.size
  storeAt moved 0 val

/-- `clone`, of a `FixedPMCArray` first. -/
def clone (q : Rpa α) : Except Failure (Rpa α) :=
  if q.size = 0 then .ok .new
  else if 0 ≤ q.size ∧ q.size ≤ q.slots.length then
    .ok ⟨q.size, q.size.toNat, some (q.slots.take q.size.toNat)⟩
  else .error .outsideSlots

/-- The copying loop of `splice`; `shiftPmc` is what the other array's iterator returns. -/
def copyElements (shiftPmc : Rpa α → Nat → Except Failure (Option α)) (offset : Int) :
    Nat → Nat → Rpa α → Except Failure (Rpa α)
  | 0, _, q => .ok q
  | left + 1, i, q => do
    let value ← shiftPmc q i
    let q ← storeAt q (offset + i) value
    copyElements shiftPmc offset left (i + 1) q

/-- The elements behind the splice are moved, if there are any. -/
def moveTail (q : Rpa α) (moves : Bool) (target source tail : Int) : Except Failure (Rpa α) :=
  if 0 < tail ∧ moves then moveSlots q target source tail else .ok q

/-- What `splice` does before it copies: move the tail, resize, move it back. -/
def makeRoom (q : Rpa α) (shrinks grows : Bool) (target source size tail : Int) :
    Except Failure (Rpa α) := do
  let q ← moveTail q shrinks target source tail
  let q ← setIntegerNative q size
  moveTail q grows target source tail

def splice (q : Rpa α) (elems1 : Int) (shiftPmc : Rpa α → Nat → Except Failure (Option α))
    (offset count : Int) : Except Failure (Rpa α) :=
  let offset := if offset < 0 then offset + q.size else offset
  if offset < 0 then .error (.outOfBounds "illegal splice offset\n")
  else do
    let tail := max (q.size - offset - count) 0
    let q ← makeRoom q (elems1 < count) (count < elems1) (offset + elems1) (offset + count)
      (offset + elems1 + tail) tail
    copyElements shiftPmc offset elems1.toNat 0 q

/-- `append` of as many elements as `data` gives. -/
def append (q : Rpa α) (m : Int) (data : Rpa α → Except Failure (List (Option α))) :
    Except Failure (Rpa α) :=
  if m = 0 then .ok q
  else do
    let grown ← setIntegerNative q (q.size + m)
    let values ← data grown
    if 0 ≤ q.size ∧ q.size.toNat + values.length ≤ grown.slots.length then
      .ok { grown with pmcArray := some (overwrite grown.slots q.size.toNat values) }
    else .error .outsideSlots

def firstSlots (m : Int) (q : Rpa α) : Except Failure (List (Option α)) :=
  if 0 ≤ m ∧ m ≤ q.slots.length then .ok (q.slots.take m.toNat) else .error .outsideSlots

end RakudoStar.Arrays.Resizable

namespace RakudoStar.Arrays.Resizable

open Foundation RakudoStar.Except

/-- Operations on one array. -/
inductive Request (α : Type) where
  | push (value : Option α)
  | pop
  | shift
  | unshift (value : Option α)
  | set (key : Int) (value : Option α)
  | resize (size : Int)
  | assign (source : Source α)
  | delete (key : Int)
  | splice (source : Source α) (offset count : Int)
  | append (source : Source α)
  | get (key : Int)
  | elements
  deriving Repr

inductive Reply (α : Type) where
  | done
  | value (value : Option α)
  | size (size : Int)
  | array (i : Nat)
  deriving DecidableEq, Repr

inductive Operation (α : Type) where
  | new
  | clone (i : Nat)
  | request (i : Nat) (request : Request α)
  deriving Repr

/-- The elements that an array gives to another one, from the given index on. -/
def elementsFrom (q : Rpa α) : Nat → Nat → Except Failure (List (Option α))
  | 0, _ => .ok []
  | left + 1, i => do
    let value ← getPmcKeyedInt q i
    let values ← elementsFrom q left (i + 1)
    .ok (value :: values)

/-- All elements; there is no room for a negative number of them. -/
def elementsOf (q : Rpa α) : Except Failure (List (Option α)) :=
  if q.size < 0 then .error .outsideSlots else elementsFrom q q.size.toNat 0

/-- The size of a source and its iterator. -/
def sourceIterator (arrays : List (Rpa α)) (own : Nat) :
    Source α → Except Failure (Int × (Rpa α → Nat → Except Failure (Option α)))
  | .list values => .ok (values.length, fun _ => load values)
  | .array i =>
    match arrays[i]? with
    | none => .error .noSuchArray
    | some other =>
      if i = own then .ok (other.size, fun q pos => getPmcKeyedInt q pos)
      else .ok (other.size, fun _ pos => getPmcKeyedInt other pos)

/-- The size of a source and the block that `append` copies. -/
def sourceData (arrays : List (Rpa α)) (own : Nat) :
    Source α → Except Failure (Int × (Rpa α → Except Failure (List (Option α))))
  | .list values => .ok (values.length, fun _ => .ok values)
  | .array i =>
    match arrays[i]? with
    | none => .error .noSuchArray
    | some other =>
      if i = own then .ok (other.size, firstSlots other.size)
      else .ok (other.size, fun _ => firstSlots other.size other)

/-- The elements that are assigned; `none` for the array itself, of which nothing is assigned. -/
def sourceElements (arrays : List (Rpa α)) (own : Nat) :
    Source α → Except Failure (Option (List (Option α)))
  | .list values => .ok (some values)
  | .array i =>
    match arrays[i]? with
    | none => .error .noSuchArray
    | some other =>
      if i = own then .ok none
      else do
        let values ← elementsOf other
        .ok (some values)

/-- A request to an array of the store. -/
def perform (arrays : List (Rpa α)) (own : Nat) (q : Rpa α) :
    Request α → Except Failure (Reply α × Rpa α)
  | .push value => do
    let q ← pushPmc q value
    .ok (.done, q)
  | .pop => do
    let (value, q) ← popPmc q
    .ok (.value value, q)
  | .shift => do
    let (value, q) ← shiftPmc q
    .ok (.value value, q)
  | .unshift value => do
    let q ← doUnshift q value
    .ok (.done, q)
  | .set key value => do
    let q ← setPmcKeyedInt q key value
    .ok (.done, q)
  | .resize size => do
    let q ← setIntegerNative q size
    .ok (.done, q)
  | .assign source => do
    let values ← sourceElements arrays own source
    .ok (.done, (values.map (setPmc q)).getD q)
  | .delete key => do
    let q ← deleteKeyedInt q key
    .ok (.done, q)
  | .splice source offset count => do
    let (elems1, shiftPmc) ← sourceIterator arrays own source
    let q ← splice q elems1 shiftPmc offset count
    .ok (.done, q)
  | .append source => do
    let (m, data) ← sourceData arrays own source
    let q ← append q m data
    .ok (.done, q)
  | .get key => do
    let value ← getPmcKeyedInt q key
    .ok (.value value, q)
  | .elements => .ok (.size q.size, q)

/-- One operation. An exception leaves the store as it was. -/
def step (arrays : List (Rpa α)) : Operation α → Except Failure (Reply α) × List (Rpa α)
  | .new => (.ok (.array arrays.length), arrays ++ [.new])
  | .clone i =>
    match arrays[i]? with
    | none => (.error .noSuchArray, arrays)
    | some q =>
      match clone q with
      | .ok copy => (.ok (.array arrays.length), arrays ++ [copy])
      | .error failure => (.error failure, arrays)
  | .request i request =>
    match arrays[i]? with
    | none => (.error .noSuchArray, arrays)
    | some q =>
      match perform arrays i q request with
      | .ok (reply, q) => (.ok reply, arrays.set i q)
      | .error failure => (.error failure, arrays)

def run (arrays : List (Rpa α)) :
    List (Operation α) → List (Except Failure (Reply α)) × List (Rpa α)
  | [] => ([], arrays)
  | operation :: operations =>
    let (reply, next) := step arrays operation
    let (replies, last) := run next operations
    (reply :: replies, last)

/-- The element at an index; a negative index counts from the end. -/
def getElement (elements : List (Option α)) (key : Int) : Except Failure (Option α) :=
  let key := if key < 0 then key + elements.length else key
  if key < 0 then .error (.outOfBounds "ResizablePMCArray: index out of bounds!")
  else .ok (elements.getD key.toNat none)

def setElement (elements : List (Option α)) (key : Int) (value : Option α) :
    Except Failure (List (Option α)) :=
  let key := if key < 0 then key + elements.length else key
  if key < 0 then .error (.outOfBounds "ResizablePMCArray: index out of bounds!")
  else .ok ((padTo (key.toNat + 1) elements).set key.toNat value)

def resizeElements (elements : List (Option α)) (size : Int) : Except Failure (List (Option α)) :=
  if size < 0 then .error (.outOfBounds "ResizablePMCArray: Can't resize!")
  else .ok ((padTo size.toNat elements).take size.toNat)

def deleteElement (elements : List (Option α)) (key : Int) : Except Failure (List (Option α)) :=
  let key := if key < 0 then key + elements.length else key
  if key < 0 then .error (.outOfBounds "ResizablePMCArray: index out of bounds!")
  else .ok (elements.eraseIdx key.toNat)

/-- The source's elements replace some of the list, filled up to an offset behind its end. -/
def spliceElements (elements source : List (Option α)) (offset count : Int) :
    Except Failure (List (Option α)) :=
  let offset := if offset < 0 then offset + elements.length else offset
  if offset < 0 then .error (.outOfBounds "illegal splice offset\n")
  else .ok ((padTo offset.toNat elements).take offset.toNat ++ source ++
    elements.drop (offset.toNat + count.toNat))

/-- A request to a list of the store. -/
def performOnList (lists : List (List (Option α))) (elements : List (Option α)) :
    Request α → Except Failure (Reply α × List (Option α))
  | .push value => .ok (.done, elements ++ [value])
  | .pop =>
    match elements.getLast? with
    | none => .error (.outOfBounds "ResizablePMCArray: Can't pop from an empty array!")
    | some value => .ok (.value value, elements.dropLast)
  | .shift =>
    match elements with
    | [] => .error (.outOfBounds "ResizablePMCArray: Can't shift from an empty array!")
    | value :: elements => .ok (.value value, elements)
  | .unshift value => .ok (.done, value :: elements)
  | .set key value => do
    let elements ← setElement elements key value
    .ok (.done, elements)
  | .resize size => do
    let elements ← resizeElements elements size
    .ok (.done, elements)
  | .assign source => do
    let elements ← source.elements lists
    .ok (.done, elements)
  | .delete key => do
    let elements ← deleteElement elements key
    .ok (.done, elements)
  | .splice source offset count => do
    let source ← source.elements lists
    let elements ← spliceElements elements source offset count
    .ok (.done, elements)
  | .append source => do
    let source ← source.elements lists
    .ok (.done, elements ++ source)
  | .get key => do
    let value ← getElement elements key
    .ok (.value value, elements)
  | .elements => .ok (.size elements.length, elements)

def stepOnLists (lists : List (List (Option α))) :
    Operation α → Except Failure (Reply α) × List (List (Option α))
  | .new => (.ok (.array lists.length), lists ++ [[]])
  | .clone i =>
    match lists[i]? with
    | none => (.error .noSuchArray, lists)
    | some elements => (.ok (.array lists.length), lists ++ [elements])
  | .request i request =>
    match lists[i]? with
    | none => (.error .noSuchArray, lists)
    | some elements =>
      match performOnList lists elements request with
      | .ok (reply, elements) => (.ok reply, lists.set i elements)
      | .error failure => (.error failure, lists)

def runOnLists (lists : List (List (Option α))) :
    List (Operation α) → List (Except Failure (Reply α)) × List (List (Option α))
  | [] => ([], lists)
  | operation :: operations =>
    let (reply, next) := stepOnLists lists operation
    let (replies, last) := runOnLists next operations
    (reply :: replies, last)

end RakudoStar.Arrays.Resizable
