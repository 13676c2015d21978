import RakudoStar.Foundation.BitMemory
import RakudoStar.Foundation.ObjectStore

/-!
# `ResizableBooleanArray`

A window of bits over an allocation of bytes: `size` is the position behind the last element,
and `resize_threshold` that of the first one.
-/

namespace RakudoStar.BooleanArray

open Foundation List Option

abbrev bitsPerChar : Nat := 8

/-- `MIN_ALLOC`, in bits. -/
abbrev minAlloc : Nat := 64

def roundBytes (size : Nat) : Nat := (size / minAlloc + 1) * minAlloc / bitsPerChar

def bitsToBytes (size : Nat) : Nat := size / bitsPerChar

def getSizeInBytes (size : Nat) : Nat := (size + bitsPerChar - 1) / bitsPerChar

/-- An exception of the array, or a byte outside the current allocation. -/
inductive Failure where
  | outOfBounds (text : String)
  | outside
  deriving DecidableEq, Repr

structure Rba where
  size : Nat
  resizeThreshold : Nat
  bitArray : Option (List (BitVec 8))
  deriving DecidableEq, Repr

/-- `Parrot_gc_allocate_memory_chunk` and the `memset` behind it. -/
def allocateCleared (size : Nat) : List (BitVec 8) := List.replicate size 0

def memmove (destination : List (BitVec 8)) (place : Nat) (source : Option (List (BitVec 8)))
    (start size : Nat) : Except Failure (List (BitVec 8)) :=
  match copyRegion destination place (source.getD []) start size with
  | none => .error .outside
  | some copied => .ok copied

/-- `FixedBooleanArray.get_integer_keyed_int` of a key that is not negative. -/
def fixedGetIntegerKeyedInt (q : Rba) (key : Nat) : Except Failure Int :=
  if q.size ≤ key then .error (.outOfBounds "FixedBooleanArray: index out of bounds!")
  else
    let bytes := q.bitArray.getD []
    if key / bitsPerChar < bytes.length then .ok (bitAt bytes key).toInt else .error .outside

/-- `FixedBooleanArray.set_integer_keyed_int` of a key that is not negative. -/
def fixedSetIntegerKeyedInt (q : Rba) (key : Nat) (value : Int) : Except Failure Rba :=
  if q.size ≤ key then .error (.outOfBounds "FixedBooleanArray: index out of bounds!")
  else
    let bytes := q.bitArray.getD []
    if key / bitsPerChar < bytes.length then
      .ok { q with bitArray := some (writeBit bytes key (decide (value ≠ 0))) }
    else .error .outside

def fill (q : Rba) (value : Int) : Except Failure Rba :=
  let sizeInBytes := getSizeInBytes q.size
  if sizeInBytes = 0 then .ok q
  else
    let bytes := q.bitArray.getD []
    if sizeInBytes ≤ bytes.length then
      .ok { q with
        bitArray := some (overwrite bytes 0
          (List.replicate sizeInBytes (if value ≠ 0 then 0xff else 0))) }
    else .error .outside

def elements (q : Rba) : Int := q.size - q.resizeThreshold

def getIntegerKeyedInt (q : Rba) (key : Int) : Except Failure Int :=
  let key := if key < 0 then elements q + key else key
  if key < 0 then .error (.outOfBounds "ResizableBooleanArray: index out of bounds!")
  else
    let offsetkey := key.toNat + q.resizeThreshold
    if q.size ≤ offsetkey then .ok 0 else fixedGetIntegerKeyedInt q offsetkey

def setIntegerNative (q : Rba) (size : Int) : Except Failure Rba :=
  let newTailPos : Int := q.resizeThreshold + size
  if newTailPos = q.size then .ok q
  else if size < 0 then .error (.outOfBounds "ResizableBooleanArray: Can't resize!")
  else
    let newTailPos := newTailPos.toNat
    let newSizeInBytes := roundBytes newTailPos
    let oldSizeInBytes := roundBytes q.size
    match q.bitArray with
    | none =>
      .ok { q with size := newTailPos, bitArray := some (allocateCleared newSizeInBytes) }
    | some oldStore =>
      if newSizeInBytes ≠ oldSizeInBytes then do
        -- the new store has as many bytes as the array has bits
        let newStore ← memmove (allocateCleared newTailPos) 0 (some oldStore) 0
          (if newSizeInBytes < oldSizeInBytes then newSizeInBytes else oldSizeInBytes)
        .ok { q with size := newTailPos, bitArray := some newStore }
      else .ok { q with size := newTailPos }

def setIntegerKeyedInt (q : Rba) (key value : Int) : Except Failure Rba :=
  let key := if key < 0 then elements q + key else key
  if key < 0 then .error (.outOfBounds "ResizableBooleanArray: index out of bounds!")
  else do
    let offsetkey := key.toNat + q.resizeThreshold
    let q ← if q.size ≤ offsetkey then setIntegerNative q (key + 1) else .ok q
    fixedSetIntegerKeyedInt q offsetkey value

def pushInteger (q : Rba) (value : Int) : Except Failure Rba := do
  let newSize := elements q
  let q ← setIntegerNative q (newSize + 1)
  setIntegerKeyedInt q newSize value

def popInteger (q : Rba) : Except Failure (Int × Rba) :=
  if elements q < 1 then
    .error (.outOfBounds "ResizableBooleanArray: Can't pop from an empty array!")
  else do
    let newSize := elements q
    let value ← getIntegerKeyedInt q (newSize - 1)
    let q ← setIntegerNative q (newSize - 1)
    .ok (value, q)

def unshiftInteger (q : Rba) (value : Int) : Except Failure Rba := do
  let q ←
    if q.resizeThreshold = 0 then do
      let newBitArray := allocateCleared (roundBytes (q.size + minAlloc))
      let newBitArray ← memmove newBitArray (bitsToBytes minAlloc) q.bitArray 0
        (roundBytes q.size)
      .ok ⟨q.size + minAlloc, q.resizeThreshold + minAlloc, some newBitArray⟩
    else .ok q
  setIntegerKeyedInt { q with resizeThreshold := q.resizeThreshold - 1 } 0 value

def shiftInteger (q : Rba) : Except Failure (Int × Rba) :=
  if elements q < 1 then
    .error (.outOfBounds "ResizableBooleanArray: Can't shift from an empty array!")
  else do
    let value ← getIntegerKeyedInt q 0
    let headPos := q.resizeThreshold + 1
    if minAlloc ≤ headPos then do
      let newMemSize := roundBytes (q.size - minAlloc)
      let newBitArray ← memmove (allocateCleared newMemSize) 0 q.bitArray (bitsToBytes minAlloc)
        newMemSize
      .ok (value, ⟨q.size - minAlloc, headPos - minAlloc, some newBitArray⟩)
    else .ok (value, { q with resizeThreshold := headPos })

def clone (q : Rba) : Except Failure Rba :=
  match q.bitArray with
  | none => .ok q
  | some myBitArray => do
    -- called `size_in_bits` in the source
    let sizeInBits := q.size / bitsPerChar + 1
    let destBitArray ← memmove (allocateCleared sizeInBits) 0 (some myBitArray) 0 sizeInBits
    .ok { q with bitArray := some destBitArray }

inductive Request where
  | get (key : Int)
  | set (key value : Int)
  | setIntegerNative (size : Int)
  | push (value : Int)
  | pop
  | unshift (value : Int)
  | shift
  | fill (value : Int)
  | elements
  deriving DecidableEq, Repr

inductive Reply where
  | done
  | value (value : Int)
  deriving DecidableEq, Repr

def perform (q : Rba) : Request → Except Failure (Reply × Rba)
  | .get key => (getIntegerKeyedInt q key).map fun value => (.value value, q)
  | .set key value => (setIntegerKeyedInt q key value).map fun q => (.done, q)
  | .setIntegerNative size => (setIntegerNative q size).map fun q => (.done, q)
  | .push value => (pushInteger q value).map fun q => (.done, q)
  | .pop => (popInteger q).map fun (value, q) => (.value value, q)
  | .unshift value => (unshiftInteger q value).map fun q => (.done, q)
  | .shift => (shiftInteger q).map fun (value, q) => (.value value, q)
  | .fill value => (fill q value).map fun q => (.done, q)
  | .elements => .ok (.value (elements q), q)

/-- Arrays, beginning with that of `init`. -/
def resizableBooleanArray : ObjectClass Rba Request Reply Failure where
  new := ⟨0, 0, none⟩
  clone := clone
  perform := perform

/-- A list that is filled with false up to a length. -/
def padTo (size : Nat) (bits : List Bool) : List Bool :=
  bits ++ List.replicate (size - bits.length) false

/-- The list with another number of elements. -/
def resizeList (bits : List Bool) (size : Nat) : List Bool := padTo size (bits.take size)

/-- The index that a key stands for; a negative key counts from the end. -/
def indexOf (bits : List Bool) (key : Int) : Except Failure Nat :=
  let key := if key < 0 then bits.length + key else key
  if key < 0 then .error (.outOfBounds "ResizableBooleanArray: index out of bounds!")
  else .ok key.toNat

def performOnList (bits : List Bool) : Request → Except Failure (Reply × List Bool)
  | .get key => (indexOf bits key).map fun i => (.value (bits.getD i false).toInt, bits)
  | .set key value =>
    (indexOf bits key).map fun i =>
      (.done, (padTo (i + 1) bits).set i (decide (value ≠ 0)))
  | .setIntegerNative size =>
    if size < 0 then .error (.outOfBounds "ResizableBooleanArray: Can't resize!")
    else .ok (.done, resizeList bits size.toNat)
  | .push value => .ok (.done, bits ++ [decide (value ≠ 0)])
  | .pop =>
    match bits.getLast? with
    | none => .error (.outOfBounds "ResizableBooleanArray: Can't pop from an empty array!")
    | some bit => .ok (.value bit.toInt, bits.dropLast)
  | .unshift value => .ok (.done, decide (value ≠ 0) :: bits)
  | .shift =>
    match bits with
    | [] => .error (.outOfBounds "ResizableBooleanArray: Can't shift from an empty array!")
    | bit :: bits => .ok (.value bit.toInt, bits)
  | .fill value => .ok (.done, List.replicate bits.length (decide (value ≠ 0)))
  | .elements => .ok (.value bits.length, bits)

/-- The mathematical lists under the same operations. -/
def bitList : ObjectClass (List Bool) Request Reply Failure where
  new := []
  clone := .ok
  perform := performOnList

/-- The window holds the bits of the list and lies in the allocation. -/
structure Represents (q : Rba) (bits : List Bool) : Prop where
  size : q.size = q.resizeThreshold + bits.length
  allocated : q.size ≤ 8 * (q.bitArray.getD []).length
  bit : ∀ i, i < bits.length →
    bitAt (q.bitArray.getD []) (q.resizeThreshold + i) = bits.getD i false

variable (size : Nat)

theorem roundBytes_eq : roundBytes size = 8 * (size / 64) + 8 := by
  unfold roundBytes minAlloc bitsPerChar
  omega

theorem lt_roundBytes : size < 8 * roundBytes size := by
  rw [roundBytes_eq]
  omega

theorem roundBytes_add : roundBytes (size + minAlloc) = roundBytes size + 8 := by
  rw [roundBytes_eq, roundBytes_eq, minAlloc]
  omega

variable {size i : Nat}

theorem memmove_cleared {count place start size : Nat} {source : Option (List (BitVec 8))}
    (room : place + size ≤ count) (inside : start + size ≤ (source.getD []).length) :
    ∃ copied, memmove (allocateCleared count) place source start size = .ok copied ∧
      copied.length = count ∧ ∀ pos, bitAt copied pos =
        if 8 * place ≤ pos ∧ pos < 8 * (place + size) then
          bitAt (source.getD []) (8 * start + (pos - 8 * place)) else false := by
  have length : (allocateCleared count).length = count := length_replicate
  rcases copyRegion_eq (by rw [length]; exact room) inside with ⟨copied, copies, same⟩
  refine ⟨copied, ?_, same.trans length, fun pos => ?_⟩
  · rw [memmove, copies]
  · rw [bitAt_copyRegion copies, allocateCleared, bitAt_cleared]

variable {bits : List Bool} {q : Rba}

theorem Represents.elements (represents : Represents q bits) : elements q = bits.length := by
  rw [BooleanArray.elements, represents.size]
  omega

theorem Represents.fixedGet (represents : Represents q bits) (inside : i < bits.length) :
    fixedGetIntegerKeyedInt q (i + q.resizeThreshold) = .ok (bits.getD i false).toInt := by
  have bound := represents.size
  have allocated := represents.allocated
  rw [fixedGetIntegerKeyedInt, if_neg (by omega)]
  rw [if_pos (by unfold bitsPerChar; omega), add_comm, represents.bit i inside]

theorem Represents.fixedSet (represents : Represents q bits)
    (inside : i < bits.length) (value : Int) :
    ∃ next, fixedSetIntegerKeyedInt q (i + q.resizeThreshold) value = .ok next ∧
      Represents next (bits.set i (decide (value ≠ 0))) := by
  have bound := represents.size
  have allocated := represents.allocated
  refine ⟨{ q with bitArray := some (writeBit (q.bitArray.getD []) (i + q.resizeThreshold)
    (decide (value ≠ 0))) }, ?_, ?_, ?_, fun k within => ?_⟩
  · rw [fixedSetIntegerKeyedInt, if_neg (by omega)]
    rw [if_pos (by unfold bitsPerChar; omega)]
  · rw [length_set]
    exact bound
  · rw [getD_some, length_writeBit]
    exact allocated
  rw [length_set] at within
  dsimp only
  rw [getD_some, bitAt_writeBit (by omega)]
  by_cases same : k = i
  · subst same
    rw [if_pos (add_comm _ _), getD_eq_getElem?_getD, getElem?_set_self inside, getD_some]
  rw [if_neg (by omega), getD_eq_getElem?_getD, getElem?_set_ne (Ne.symm same),
    ← getD_eq_getElem?_getD]
  exact represents.bit k within

theorem Represents.front (represents : Represents q bits) (positive : 0 < q.resizeThreshold) :
    Represents { q with resizeThreshold := q.resizeThreshold - 1 }
      (bitAt (q.bitArray.getD []) (q.resizeThreshold - 1) :: bits) where
  size := by
    have bound := represents.size
    rw [length_cons]
    dsimp only
    omega
  allocated := represents.allocated
  bit i inside := by
    dsimp only
    cases i with
    | zero => rfl
    | succ i =>
      rw [length_cons] at inside
      rw [getD_cons_succ, ← represents.bit i (Nat.lt_of_succ_lt_succ inside)]
      congr 1
      omega

theorem Represents.behind {bit : Bool} (represents : Represents q (bit :: bits)) :
    Represents { q with resizeThreshold := q.resizeThreshold + 1 } bits where
  size := by
    have bound := represents.size
    rw [length_cons] at bound
    dsimp only
    omega
  allocated := represents.allocated
  bit i inside := by
    have shifted := represents.bit (i + 1) (Nat.succ_lt_succ inside)
    rw [getD_cons_succ] at shifted
    rw [← shifted]
    dsimp only
    congr 1
    omega

/-- A resize gives the list: an allocation has room for what is kept and for the new size. -/
structure ProperResize (q : Rba) (size : Nat) : Prop where
  clear : ∀ pos, q.size ≤ pos → pos < q.resizeThreshold + size → pos < 8 * roundBytes q.size →
    bitAt (q.bitArray.getD []) pos = false
  stays : q.bitArray ≠ none → roundBytes (q.resizeThreshold + size) = roundBytes q.size →
    q.resizeThreshold + size ≤ 8 * (q.bitArray.getD []).length
  moves : q.bitArray ≠ none → roundBytes (q.resizeThreshold + size) ≠ roundBytes q.size →
    min (roundBytes (q.resizeThreshold + size)) (roundBytes q.size) ≤
      min (q.bitArray.getD []).length (q.resizeThreshold + size)

@[simp]
theorem length_resizeList (bits : List Bool) (size : Nat) :
    (resizeList bits size).length = size := by
  rw [resizeList, padTo, length_append, length_replicate, length_take]
  omega

theorem getD_resizeList (bits : List Bool) (inside : i < size) :
    (resizeList bits size).getD i false = bits.getD i false := by
  rw [resizeList, padTo]
  simp only [getD_eq_getElem?_getD]
  rcases lt_or_ge i bits.length with old | new
  · rw [getElem?_append_left (by rw [length_take]; omega), getElem?_take_of_lt inside]
  rw [getElem?_append_right (by rw [length_take]; omega), getElem?_replicate, getElem?_eq_none new]
  split <;> rfl

theorem Represents.resized (represents : Represents q bits)
    {bytes : List (BitVec 8)} (room : q.resizeThreshold + size ≤ 8 * bytes.length)
    (kept : ∀ pos, pos < q.size → pos < q.resizeThreshold + size →
      bitAt bytes pos = bitAt (q.bitArray.getD []) pos)
    (clear : ∀ pos, q.size ≤ pos → pos < q.resizeThreshold + size → bitAt bytes pos = false) :
    Represents ⟨q.resizeThreshold + size, q.resizeThreshold, some bytes⟩
      (resizeList bits size) where
  size := by rw [length_resizeList]
  allocated := room
  bit i inside := by
    rw [length_resizeList] at inside
    dsimp only
    rw [getD_some, getD_resizeList bits inside]
    have bound := represents.size
    rcases lt_or_ge i bits.length with old | new
    · rw [kept _ (by omega) (by omega)]
      exact represents.bit i old
    · rw [clear _ (by omega) (by omega), getD_eq_getElem?_getD, getElem?_eq_none new]
      rfl

theorem resizeList_length (bits : List Bool) : resizeList bits bits.length = bits := by
  rw [resizeList, padTo, take_length, Nat.sub_self]
  exact append_nil bits

theorem Represents.setIntegerNative (represents : Represents q bits)
    (proper : ProperResize q size) : ∃ next, setIntegerNative q size = .ok next ∧
      next.resizeThreshold = q.resizeThreshold ∧ Represents next (resizeList bits size) := by
  have bound := represents.size
  rw [BooleanArray.setIntegerNative]
  by_cases same : (q.resizeThreshold + size : Int) = q.size
  · have count : size = bits.length := by omega
    refine ⟨q, if_pos same, rfl, ?_⟩
    rw [count, resizeList_length]
    exact represents
  have position : ((q.resizeThreshold : Int) + size).toNat = q.resizeThreshold + size := by omega
  rw [if_neg same, if_neg (Int.not_lt.mpr (Int.natCast_nonneg size)), position]
  cases stored : q.bitArray with
  | none =>
    have empty : q.size = 0 := by
      have allocated := represents.allocated
      rw [stored] at allocated
      exact Nat.le_zero.mp allocated
    refine ⟨_, rfl, rfl, represents.resized ?_ ?_ fun pos _ _ => bitAt_cleared _ _⟩
    · rw [allocateCleared, length_replicate]
      exact le_of_lt (lt_roundBytes _)
    · intro pos before
      exact absurd before (by omega)
  | some oldStore =>
    have exists_ : q.bitArray ≠ none := by rw [stored]; exact some_ne_none oldStore
    have store : q.bitArray.getD [] = oldStore := by rw [stored, getD_some]
    dsimp only
    by_cases rounded : roundBytes (q.resizeThreshold + size) = roundBytes q.size
    · have room := proper.stays exists_ rounded
      rw [store] at room
      refine ⟨_, if_neg (not_not.mpr rounded), rfl, ?_⟩
      apply represents.resized room
      · intro pos _ _
        rw [store]
      intro pos new before
      rw [← store]
      have within := lt_roundBytes (q.resizeThreshold + size)
      exact proper.clear pos new before (by omega)
    have moves := proper.moves exists_ rounded
    rw [store] at moves
    have copied : (if roundBytes (q.resizeThreshold + size) < roundBytes q.size then
        roundBytes (q.resizeThreshold + size) else roundBytes q.size) =
        min (roundBytes (q.resizeThreshold + size)) (roundBytes q.size) := by
      split <;> omega
    rw [if_pos rounded, copied]
    have enough := lt_roundBytes (q.resizeThreshold + size)
    have old := lt_roundBytes q.size
    rcases @memmove_cleared (q.resizeThreshold + size) 0 0
      (min (roundBytes (q.resizeThreshold + size)) (roundBytes q.size)) (some oldStore)
      (by omega) (by rw [getD_some]; omega) with ⟨newStore, moved, length, bits⟩
    rw [moved]
    refine ⟨_, rfl, rfl, represents.resized ?_ (fun pos before within => ?_)
      fun pos new within => ?_⟩
    · rw [length]
      omega
    · rw [bits, if_pos (by omega), store, getD_some]
      congr 1
      omega
    rw [bits]
    split
    · have clear := proper.clear pos new within (by omega)
      rw [store] at clear
      rw [getD_some, ← clear]
      congr 1
      omega
    · rfl

end RakudoStar.BooleanArray
