import RakudoStar.Foundation.Region
import RakudoStar.Foundation.Except

/-!
# The array of NQP

A `QRPA` keeps its elements in a window of a buffer of slots, whose beginning shifting and
unshifting move. A null pointer in a slot is `none`.
-/

namespace RakudoStar.Arrays

open Foundation

variable {α : Type}

/-- The attributes of a `QRPA`; `ssize` is the length of the slots. -/
structure Qrpa (α : Type) where
  elems : Nat
  start : Nat
  slots : List (Option α)
  deriving Repr

/-- Exceptions by their message, and accesses outside of the slots. -/
inductive Failure where
  | outOfBounds (message : String)
  | outsideSlots
  | noSuchArray
  deriving DecidableEq, Repr

def Qrpa.ssize (q : Qrpa α) : Nat := q.slots.length

def Qrpa.new : Qrpa α := ⟨0, 0, []⟩

def memmove (slots : List (Option α)) (target source : Int) (count : Nat) :
    Except Failure (List (Option α)) :=
  if 0 ≤ target ∧ target + count ≤ slots.length ∧ 0 ≤ source ∧ source + count ≤ slots.length then
    .ok (overwrite slots target.toNat (readRegion slots source.toNat count))
  else .error .outsideSlots

def load (slots : List (Option α)) (i : Nat) : Except Failure (Option α) :=
  match slots[i]? with
  | some value => .ok value
  | none => .error .outsideSlots

def store (slots : List (Option α)) (i : Nat) (value : Option α) :
    Except Failure (List (Option α)) :=
  if i < slots.length then .ok (slots.set i value) else .error .outsideSlots

/-- `while (elems < ssize) { slots[elems] = PMCNULL; elems++; }`, also over what was reallocated. -/
def fillNull (slots : List (Option α)) (elems ssize : Nat) : List (Option α) :=
  slots.take elems ++ List.replicate (ssize - elems) none

/-- The size of the new slots. -/
def grownSize (ssize n : Nat) : Nat :=
  if ssize < 8192 then max (max (ssize * 2) n) 8
  else (n + 0x1000) / 0x1000 * 0x1000

/-- The elements moved to the first slots, the slots behind them cleared. -/
def shiftOffEmptySlots (q : Qrpa α) : Except Failure (Qrpa α) := do
  let slots ← if 0 < q.elems then memmove q.slots 0 q.start q.elems else .ok q.slots
  .ok { q with start := 0, slots := fillNull slots q.elems q.ssize }

/-- The window ends at its new size; added slots are cleared, from the given one on. -/
def setElems (q : Qrpa α) (cleared n : Nat) : Qrpa α :=
  if n ≤ q.ssize then { q with elems := n }
  else { q with elems := n, slots := fillNull q.slots cleared (grownSize q.ssize n) }

def setIntegerNative (q : Qrpa α) (n : Int) : Except Failure (Qrpa α) :=
  if n < 0 then .error (.outOfBounds "QRPA: Can't resize to negative elements")
  else if n.toNat = q.elems then .ok q
  else if 0 < q.start ∧ q.ssize < n.toNat + q.start then do
    let moved ← shiftOffEmptySlots q
    .ok (setElems moved q.ssize n.toNat)
  else .ok (setElems q q.elems n.toNat)

def getPmcKeyedInt (q : Qrpa α) (pos : Int) : Except Failure (Option α) :=
  if pos < 0 then
    if pos + q.elems < 0 then .error (.outOfBounds "QRPA: index out of bounds")
    else load q.slots (q.start + (pos + q.elems).toNat)
  else if q.elems ≤ pos then .ok none
  else load q.slots (q.start + pos.toNat)

def setPmcKeyedInt (q : Qrpa α) (pos : Int) (value : Option α) : Except Failure (Qrpa α) :=
  if pos < 0 then
    if pos + q.elems < 0 then .error (.outOfBounds "QRPA: index out of bounds")
    else do
      let slots ← store q.slots (q.start + (pos + q.elems).toNat) value
      .ok { q with slots }
  else do
    let q ← if q.elems ≤ pos then setIntegerNative q (pos + 1) else .ok q
    let slots ← store q.slots (q.start + pos.toNat) value
    .ok { q with slots }

def popPmc (q : Qrpa α) : Except Failure (Option α × Qrpa α) :=
  if q.elems < 1 then .error (.outOfBounds "QRPA: Can't pop from an empty array!")
  else do
    let value ← load q.slots (q.start + (q.elems - 1))
    .ok (value, { q with elems := q.elems - 1 })

def pushPmc (q : Qrpa α) (value : Option α) : Except Failure (Qrpa α) := do
  let q ← setIntegerNative q (q.elems + 1)
  let slots ← store q.slots (q.start + q.elems - 1) value
  .ok { q with slots }

def shiftPmc (q : Qrpa α) : Except Failure (Option α × Qrpa α) :=
  if q.elems < 1 then .error (.outOfBounds "QRPA: Can't shift from an empty array!")
  else do
    let value ← load q.slots q.start
    .ok (value, { q with start := q.start + 1, elems := q.elems - 1 })

/-- Eight free slots before the elements. -/
def makeRoom (q : Qrpa α) : Except Failure (Qrpa α) := do
  let grown ← setIntegerNative q (q.elems + 8)
  let slots ← memmove grown.slots 8 0 q.elems
  .ok { start := 8, elems := q.elems, slots := overwrite slots 0 (List.replicate 8 none) }

def unshiftPmc (q : Qrpa α) (value : Option α) : Except Failure (Qrpa α) := do
  let q ← if q.start < 1 then makeRoom q else .ok q
  let slots ← store q.slots (q.start - 1) value
  .ok { start := q.start - 1, elems := q.elems + 1, slots }

def clone (q : Qrpa α) : Qrpa α :=
  if 0 < q.elems then ⟨q.elems, 0, readRegion q.slots q.start q.elems⟩ else .new

/-- Copies the other array's elements; `shiftIter` is what its iterator returns. -/
def copyElements (shiftIter : Qrpa α → Nat → Except Failure (Option α)) (offset : Nat) :
    Nat → Nat → Qrpa α → Except Failure (Qrpa α)
  | 0, _, q => .ok q
  | left + 1, i, q => do
    let value ← shiftIter q i
    let slots ← store q.slots (q.start + offset + i) value
    copyElements shiftIter offset left (i + 1) { q with slots }

/-- A splice at the beginning moves the start. -/
def adjustStart (q : Qrpa α) (count : Int) (elems1 : Nat) : Qrpa α × Int :=
  let n := min (elems1 - count) q.start
  if n ≤ -q.elems then ({ q with start := 0, elems := 0 }, 0)
  else if n ≠ 0 then
    ({ q with start := (q.start - n).toNat, elems := (q.elems + n).toNat }, count + n)
  else (q, count)

/-- The moves of the elements behind the splice, and the copying. -/
def replaceElements (q : Qrpa α) (elems1 : Nat)
    (shiftIter : Qrpa α → Nat → Except Failure (Option α)) (offset : Nat) (count : Int) :
    Except Failure (Qrpa α) := do
  let tail := (q.elems - offset - count).toNat
  let slots ← if 0 < tail ∧ elems1 < count then
      memmove q.slots (q.start + offset + elems1) (q.start + offset + count) tail
    else .ok q.slots
  let q ← setIntegerNative { q with slots } (offset + elems1 + tail : Nat)
  let slots ← if 0 < tail ∧ count < elems1 then
      memmove q.slots (q.start + offset + elems1) (q.start + offset + count) tail
    else .ok q.slots
  copyElements shiftIter offset elems1 0 { q with slots }

def splice (q : Qrpa α) (elems1 : Nat)
    (shiftIter : Qrpa α → Nat → Except Failure (Option α)) (offset count : Int) :
    Except Failure (Qrpa α) :=
  let offset := if offset < 0 then offset + q.elems else offset
  if offset < 0 then .error (.outOfBounds "QRPA: illegal splice offset\n")
  else
    let (q, count) := if offset = 0 then adjustStart q count elems1 else (q, count)
    if count = 0 ∧ elems1 = 0 then .ok q
    else replaceElements q elems1 shiftIter offset.toNat count

end RakudoStar.Arrays

namespace RakudoStar.Arrays

open Foundation RakudoStar.Except

/-- The elements that are spliced in: of a list of another kind, or of an array. -/
inductive Source (α : Type) where
  | list (values : List (Option α))
  | array (i : Nat)
  deriving Repr

/-- Operations on one array. -/
inductive Request (α : Type) where
  | push (value : Option α)
  | pop
  | shift
  | unshift (value : Option α)
  | set (pos : Int) (value : Option α)
  | resize (n : Int)
  | splice (source : Source α) (offset count : Int)
  | get (pos : Int)
  | elements
  deriving Repr

inductive Operation (α : Type) where
  | new
  | clone (i : Nat)
  | request (i : Nat) (request : Request α)
  deriving Repr

inductive Reply (α : Type) where
  | done
  | value (value : Option α)
  | size (n : Nat)
  | array (i : Nat)
  deriving DecidableEq, Repr

/-- The size of what is spliced in, and its iterator. -/
def Source.iterator (arrays : List (Qrpa α)) (own : Nat) :
    Source α → Except Failure (Nat × (Qrpa α → Nat → Except Failure (Option α)))
  | .list values => .ok (values.length, fun _ => load values)
  | .array i =>
    match arrays[i]? with
    | none => .error .noSuchArray
    | some other =>
      if i = own then .ok (other.elems, fun q pos => getPmcKeyedInt q pos)
      else .ok (other.elems, fun _ pos => getPmcKeyedInt other pos)

/-- A request to an array of the store. -/
def perform (arrays : List (Qrpa α)) (own : Nat) (q : Qrpa α) :
    Request α → Except Failure (Reply α × Qrpa α)
  | .push value => do
    let q ← pushPmc q value
    .ok (.done, q)
  | .pop => do
    let (value, q) ← popPmc q
    .ok (.value value, q)
  | .shift => do
    let (value, q) ← shiftPmc q
    .ok (.value value, q)
  | .unshift value => do
    let q ← unshiftPmc q value
    .ok (.done, q)
  | .set pos value => do
    let q ← setPmcKeyedInt q pos value
    .ok (.done, q)
  | .resize n => do
    let q ← setIntegerNative q n
    .ok (.done, q)
  | .splice source offset count => do
    let (elems1, shiftIter) ← source.iterator arrays own
    let q ← splice q elems1 shiftIter offset count
    .ok (.done, q)
  | .get pos => do
    let value ← getPmcKeyedInt q pos
    .ok (.value value, q)
  | .elements => .ok (.size q.elems, q)

/-- One operation. An exception leaves the store as it was. -/
def step (arrays : List (Qrpa α)) : Operation α → Except Failure (Reply α) × List (Qrpa α)
  | .new => (.ok (.array arrays.length), arrays ++ [.new])
  | .clone i =>
    match arrays[i]? with
    | none => (.error .noSuchArray, arrays)
    | some q => (.ok (.array arrays.length), arrays ++ [clone q])
  | .request i request =>
    match arrays[i]? with
    | none => (.error .noSuchArray, arrays)
    | some q =>
      match perform arrays i q request with
      | .ok (reply, q) => (.ok reply, arrays.set i q)
      | .error failure => (.error failure, arrays)

def run (arrays : List (Qrpa α)) :
    List (Operation α) → List (Except Failure (Reply α)) × List (Qrpa α)
  | [] => ([], arrays)
  | operation :: operations =>
    let (reply, next) := step arrays operation
    let (replies, last) := run next operations
    (reply :: replies, last)

/-- A list that is filled with null up to a length. -/
def padTo (n : Nat) (elements : List (Option α)) : List (Option α) :=
  elements ++ List.replicate (n - elements.length) none

/-- The element at an index; a negative index counts from the end. -/
def getElement (elements : List (Option α)) (pos : Int) : Except Failure (Option α) :=
  let pos := if pos < 0 then pos + elements.length else pos
  if pos < 0 then .error (.outOfBounds "QRPA: index out of bounds")
  else .ok (elements.getD pos.toNat none)

def setElement (elements : List (Option α)) (pos : Int) (value : Option α) :
    Except Failure (List (Option α)) :=
  let pos := if pos < 0 then pos + elements.length else pos
  if pos < 0 then .error (.outOfBounds "QRPA: index out of bounds")
  else .ok ((padTo (pos.toNat + 1) elements).set pos.toNat value)

def resizeElements (elements : List (Option α)) (n : Int) : Except Failure (List (Option α)) :=
  if n < 0 then .error (.outOfBounds "QRPA: Can't resize to negative elements")
  else .ok (padTo n.toNat (elements.take n.toNat))

/-- The source's elements replace some of the list, filled up to an offset behind its end. -/
def spliceElements (elements source : List (Option α)) (offset count : Int) :
    Except Failure (List (Option α)) :=
  let offset := if offset < 0 then offset + elements.length else offset
  if offset < 0 then .error (.outOfBounds "QRPA: illegal splice offset\n")
  else if count = 0 ∧ source = [] then .ok elements
  else .ok ((padTo offset.toNat elements).take offset.toNat ++ source ++
    elements.drop (offset.toNat + count.toNat))

def Source.elements (lists : List (List (Option α))) : Source α → Except Failure (List (Option α))
  | .list values => .ok values
  | .array i =>
    match lists[i]? with
    | none => .error .noSuchArray
    | some elements => .ok elements

/-- A request to a list of the store. -/
def performOnList (lists : List (List (Option α))) (elements : List (Option α)) :
    Request α → Except Failure (Reply α × List (Option α))
  | .push value => .ok (.done, elements ++ [value])
  | .pop =>
    match elements.getLast? with
    | none => .error (.outOfBounds "QRPA: Can't pop from an empty array!")
    | some value => .ok (.value value, elements.dropLast)
  | .shift =>
    match elements with
    | [] => .error (.outOfBounds "QRPA: Can't shift from an empty array!")
    | value :: elements => .ok (.value value, elements)
  | .unshift value => .ok (.done, value :: elements)
  | .set pos value => do
    let elements ← setElement elements pos value
    .ok (.done, elements)
  | .resize n => do
    let elements ← resizeElements elements n
    .ok (.done, elements)
  | .splice source offset count => do
    let source ← source.elements lists
    let elements ← spliceElements elements source offset count
    .ok (.done, elements)
  | .get pos => do
    let value ← getElement elements pos
    .ok (.value value, elements)
  | .elements => .ok (.size elements.length, elements)

def stepOnLists (lists : List (List (Option α))) :
    Operation α → Except Failure (Reply α) × List (List (Option α))
  | .new => (.ok (.array lists.length), lists ++ [[]])
  | .clone i =>
    match lists[i]? with
    | none => (.error .noSuchArray, lists)
    | some elements => (.ok (.array lists.length), lists ++ [elements])
  | .request i request =>
    match lists[i]? with
    | none => (.error .noSuchArray, lists)
    | some elements =>
      match performOnList lists elements request with
      | .ok (reply, elements) => (.ok reply, lists.set i elements)
      | .error failure => (.error failure, lists)

def runOnLists (lists : List (List (Option α))) :
    List (Operation α) → List (Except Failure (Reply α)) × List (List (Option α))
  | [] => ([], lists)
  | operation :: operations =>
    let (reply, next) := stepOnLists lists operation
    let (replies, last) := runOnLists next operations
    (reply :: replies, last)

end RakudoStar.Arrays
