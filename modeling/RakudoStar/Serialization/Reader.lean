import RakudoStar.Serialization.Writer

/-!
# Reading values

The reader takes bytes of a data segment at an offset, with the string heap, the dependencies
and the root sets at hand.
-/

namespace RakudoStar.Serialization

open Foundation

inductive ReadFault where
  | exception (message : String)
  /-- An array is asked for an element it does not have. -/
  | outOfBounds
  /-- A hash is asked to store under the null string. -/
  | nullKey
  | outOfFuel
  deriving DecidableEq, Repr

structure Reader where
  sc : Sc
  dependentScs : List Sc
  stringHeap : List (Option String)
  stablesOf : Sc → List STable
  objectsOf : Sc → List Obj
  codesOf : Sc → List Code
  data : List UInt8
  offset : Nat

/-- An element of a Parrot array, where a negative index counts from the end. -/
def elementAt {α : Type} (list : List α) (idx : Int) : Except ReadFault α :=
  let i := if idx < 0 then idx + list.length else idx
  if i < 0 then .error .outOfBounds
  else
    match list[i.toNat]? with
    | some element => .ok element
    | none => .error .outOfBounds

namespace Reader

/-- The bytes from the offset on. -/
def rest (r : Reader) : List UInt8 := r.data.drop r.offset

def advance (r : Reader) (amount : Nat) : Reader := { r with offset := r.offset + amount }

/-- `assert_can_read`, then the bytes at the offset. -/
def readBytes (r : Reader) (amount : Nat) : Except ReadFault (List UInt8 × Reader) :=
  if r.offset + amount > r.data.length then
    .error (.exception "Read past end of serialization data buffer")
  else .ok (r.rest.take amount, r.advance amount)

def readInt16 (r : Reader) : Except ReadFault (Int × Reader) := do
  let (bytes, r) ← r.readBytes 2
  .ok (signedOfBytes 2 bytes, r)

def readInt32 (r : Reader) : Except ReadFault (Int × Reader) := do
  let (bytes, r) ← r.readBytes 4
  .ok (signedOfBytes 4 bytes, r)

def readInt (r : Reader) : Except ReadFault (BitVec 64 × Reader) := do
  let (bytes, r) ← r.readBytes 8
  .ok (BitVec.ofNat 64 (ofBytes bytes), r)

def readNum (r : Reader) : Except ReadFault (BitVec 64 × Reader) := do
  let (bytes, r) ← r.readBytes 8
  .ok (BitVec.ofNat 64 (ofBytes bytes), r)

def readStringFromHeap (r : Reader) (idx : Int) : Except ReadFault (Option String) :=
  if idx ≥ r.stringHeap.length then
    .error (.exception s!"Attempt to read past end of string heap (index {idx})")
  else elementAt r.stringHeap idx

def readStr (r : Reader) : Except ReadFault (Option String × Reader) := do
  let (idx, r) ← r.readInt32
  let value ← r.readStringFromHeap idx
  .ok (value, r)

def locateSc (r : Reader) (scId : Int) : Except ReadFault Sc :=
  if scId = 0 then .ok r.sc
  else if scId - 1 ≥ r.dependentScs.length then
    .error (.exception s!"Invalid dependencies table index encountered (index {scId})")
  else elementAt r.dependentScs (scId - 1)

/-- A context ID and an index, eight bytes that are known to be there. -/
def readPair (r : Reader) : Except ReadFault ((Int × Int) × Reader) := do
  let (bytes, r) ← r.readBytes 8
  .ok ((signedOfBytes 4 (bytes.take 4), signedOfBytes 4 (bytes.drop 4)), r)

def getObject (r : Reader) (sc : Sc) (idx : Int) : Except ReadFault Obj :=
  if idx ≥ (r.objectsOf sc).length then .error (.exception s!"No object at index {idx}")
  else elementAt (r.objectsOf sc) idx

def getStable (r : Reader) (sc : Sc) (idx : Int) : Except ReadFault STable :=
  if idx ≥ (r.stablesOf sc).length then .error (.exception s!"No STable at index {idx}")
  else elementAt (r.stablesOf sc) idx

def getCode (r : Reader) (sc : Sc) (idx : Int) : Except ReadFault Code :=
  if idx ≥ (r.codesOf sc).length then .error (.exception s!"No code ref at index {idx}")
  else elementAt (r.codesOf sc) idx

def readObjRef (r : Reader) : Except ReadFault (Obj × Reader) := do
  let (pair, r) ← r.readPair
  let sc ← r.locateSc pair.1
  let obj ← r.getObject sc pair.2
  .ok (obj, r)

def readStableRef (r : Reader) : Except ReadFault (STable × Reader) := do
  let (pair, r) ← r.readPair
  let sc ← r.locateSc pair.1
  let st ← r.getStable sc pair.2
  .ok (st, r)

def readCodeRef (r : Reader) : Except ReadFault (Code × Reader) := do
  let (pair, r) ← r.readPair
  let sc ← r.locateSc pair.1
  let code ← r.getCode sc pair.2
  .ok (code, r)

/-- The loops over elements: one element after the other. -/
def readMany {α : Type} (readOne : Reader → Except ReadFault (α × Reader)) :
    Nat → Reader → Except ReadFault (List α × Reader)
  | 0, r => .ok ([], r)
  | count + 1, r => do
    let (element, r) ← readOne r
    let (elements, r) ← readMany readOne count r
    .ok (element :: elements, r)

/-- An element count, and then as many elements; no element for a negative count. -/
def readCounted {α : Type} (readOne : Reader → Except ReadFault (α × Reader)) (r : Reader) :
    Except ReadFault (List α × Reader) := do
  let (elems, r) ← r.readInt32
  r.readMany readOne elems.toNat

/-- Store under a key of a hash. -/
def setKeyed (entries : List (String × VMValue)) (key : String) (value : VMValue) :
    List (String × VMValue) :=
  match entries with
  | [] => [(key, value)]
  | entry :: entries =>
    if entry.1 = key then (key, value) :: entries else entry :: setKeyed entries key value

/-- One key and its value. -/
def readEntry (readRef : Reader → Except ReadFault (VMValue × Reader)) (r : Reader) :
    Except ReadFault ((String × VMValue) × Reader) := do
  let (key, r) ← r.readStr
  let (value, r) ← readRef r
  match key with
  | some key => .ok ((key, value), r)
  | none => .error .nullKey

/-- The hash that the entries read build up. -/
def hashOf (entries : List (String × VMValue)) : List (String × VMValue) :=
  entries.foldl (fun hash entry => setKeyed hash entry.1 entry.2) []

/-- What `read_ref_func` does for a discriminator. -/
def readAction (readRef : Reader → Except ReadFault (VMValue × Reader)) (discrim : Int)
    (r : Reader) : Except ReadFault (VMValue × Reader) :=
  match discrim with
  | 1 => .ok (.null, r)
  | 2 => do
    let (obj, r) ← r.readObjRef
    .ok (.object obj, r)
  | 3 => .ok (.vmNull, r)
  | 4 => do
    let (value, r) ← r.readInt
    .ok (.int value, r)
  | 5 => do
    let (bits, r) ← r.readNum
    .ok (.num bits, r)
  | 6 => do
    let (value, r) ← r.readStr
    .ok (.str value, r)
  | 7 => do
    let (elements, r) ← r.readCounted readRef
    .ok (.array elements, r)
  | 8 => do
    let (elements, r) ← r.readCounted readStr
    .ok (.strArray elements, r)
  | 9 => do
    let (elements, r) ← r.readCounted readInt
    .ok (.intArray elements, r)
  | 10 => do
    let (entries, r) ← r.readCounted (readEntry readRef)
    .ok (.hash (hashOf entries), r)
  | 11 => do
    let (code, r) ← r.readCodeRef
    .ok (.code code, r)
  | 12 => do
    let (code, r) ← r.readCodeRef
    .ok (.code code, r)
  | _ => .error (.exception "Serialization Error: Unimplemented case of read_ref")

/-- `read_ref_func`; every level of nesting reads a discriminator. -/
def readRefWith : Nat → Reader → Except ReadFault (VMValue × Reader)
  | 0, _ => .error .outOfFuel
  | fuel + 1, r => do
    let (discrim, r) ← r.readInt16
    readAction (readRefWith fuel) discrim r

def readRef (r : Reader) : Except ReadFault (VMValue × Reader) :=
  readRefWith r.rest.length r

end Reader

/-- Which reading function answers a call of a writing function. -/
inductive ItemKind where
  | int
  | num
  | str
  | ref
  | objRef
  | stableRef
  deriving DecidableEq, Repr

def Item.kind : Item → ItemKind
  | .int _ => .int
  | .num _ => .num
  | .str _ => .str
  | .ref _ => .ref
  | .objRef _ => .objRef
  | .stableRef _ => .stableRef

namespace Reader

def readItem (r : Reader) : ItemKind → Except ReadFault (Item × Reader)
  | .int => do
    let (value, r) ← r.readInt
    .ok (.int value, r)
  | .num => do
    let (bits, r) ← r.readNum
    .ok (.num bits, r)
  | .str => do
    let (value, r) ← r.readStr
    .ok (.str value, r)
  | .ref => do
    let (value, r) ← r.readRef
    .ok (.ref value, r)
  | .objRef => do
    let (obj, r) ← r.readObjRef
    .ok (.objRef obj, r)
  | .stableRef => do
    let (st, r) ← r.readStableRef
    .ok (.stableRef st, r)

def readItems (r : Reader) : List ItemKind → Except ReadFault (List Item × Reader)
  | [] => .ok ([], r)
  | kind :: kinds => do
    let (item, r) ← r.readItem kind
    let (items, r) ← r.readItems kinds
    .ok (item :: items, r)

end Reader

mutual

/-- The value that is read back: everything that is dropped comes back as null. -/
def VMValue.readBack : VMValue → VMValue
  | .undef => .vmNull
  | .dropped _ => .vmNull
  | .array elements => .array (VMValue.readBackAll elements)
  | .hash entries => .hash (VMValue.readBackEntries entries)
  | value => value

def VMValue.readBackAll : List VMValue → List VMValue
  | [] => []
  | value :: values => value.readBack :: VMValue.readBackAll values

def VMValue.readBackEntries : List (String × VMValue) → List (String × VMValue)
  | [] => []
  | (key, value) :: entries => (key, value.readBack) :: VMValue.readBackEntries entries

end

def Item.readBack : Item → Item
  | .ref value => .ref value.readBack
  | item => item

mutual

/-- The keys of a hash are distinct, and no count of elements reaches 2^31. -/
def VMValue.Fits : VMValue → Prop
  | .array elements => elements.length < 2147483648 ∧ VMValue.AllFit elements
  | .intArray elements => elements.length < 2147483648
  | .strArray elements => elements.length < 2147483648
  | .hash entries =>
    (entries.map Prod.fst).Nodup ∧ entries.length < 2147483648 ∧ VMValue.EntriesFit entries
  | _ => True

def VMValue.AllFit : List VMValue → Prop
  | [] => True
  | value :: values => value.Fits ∧ VMValue.AllFit values

def VMValue.EntriesFit : List (String × VMValue) → Prop
  | [] => True
  | (_, value) :: entries => value.Fits ∧ VMValue.EntriesFit entries

end

def Item.Fits : Item → Prop
  | .ref value => value.Fits
  | _ => True

end RakudoStar.Serialization
