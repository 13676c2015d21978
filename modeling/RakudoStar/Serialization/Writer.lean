import RakudoStar.Foundation.LittleEndian

/-!
# Writing values

The string heap, the dependency table, the lists of things to serialize and the data segments.
`write_ref` writes arrays and hashes by content, objects and code references by their place in a
context.
-/

namespace RakudoStar.Serialization

open Foundation

abbrev Sc := Nat
abbrev STable := Nat
abbrev Obj := Nat
abbrev Code := Nat
abbrev Ctx := Nat

/-- The types `write_ref_func` drops on purpose. -/
inductive DroppedType where
  | pointer
  | ctmThunk
  | fileHandle
  | callContext
  deriving DecidableEq, Repr

/-- `null` is a C `NULL`, `vmNull` is `PMCNULL`; a string may be the null string. -/
inductive VMValue where
  | null
  | vmNull
  | undef
  | dropped (type : DroppedType)
  | object (obj : Obj)
  | int (value : BitVec 64)
  | num (bits : BitVec 64)
  | str (value : Option String)
  | array (elements : List VMValue)
  | intArray (elements : List (BitVec 64))
  | strArray (elements : List (Option String))
  | hash (entries : List (String × VMValue))
  | code (code : Code)
  | parrotObject (className : String)
  | unimplemented (whoami : String)

/-- One call of a writing function. -/
inductive Item where
  | int (value : BitVec 64)
  | num (bits : BitVec 64)
  | str (value : Option String)
  | ref (value : VMValue)
  | objRef (obj : Obj)
  | stableRef (st : STable)

/-- The `lex_info` of a code object. -/
inductive LexInfo where
  | null
  | lexpad (staticCode : Option Code)
  | unknown
  deriving DecidableEq, Repr

structure CodeInfo where
  name : String
  lexInfo : LexInfo
  /-- The `STATIC_CODE_REF` property is set. -/
  isStaticCodeRef : Bool
  /-- The `COMPILER_STUB` property is set. -/
  compilerStub : Bool
  outerCtx : Option Ctx
  codeObject : Option Obj

structure BoolificationSpec where
  mode : BitVec 64
  method : VMValue

structure ContainerSpec where
  classHandle : VMValue
  attrName : Option String
  hint : BitVec 64
  fetchMethod : VMValue

structure StableInfo where
  reprName : Option String
  how : Obj
  what : Obj
  who : VMValue
  methodCache : VMValue
  vtable : List VMValue
  typeCheckCache : List VMValue
  modeFlags : BitVec 64
  boolificationSpec : Option BoolificationSpec
  containerSpec : Option ContainerSpec
  /-- The calls that `serialize_repr_data` makes, if the representation has it. -/
  reprData : List Item

structure ObjectInfo where
  isSixModelObject : Bool
  stable : STable
  concrete : Bool
  /-- The calls that the `serialize` function of the representation makes. -/
  body : Option (List Item)

inductive Lexical where
  | int (value : BitVec 64)
  | num (bits : BitVec 64)
  | str (value : Option String)
  | ref (value : VMValue)

structure CtxInfo where
  currentSub : Code
  outerCtx : Option Ctx
  lexicals : List (String × Lexical)

/-- What serialization does not change, with the root sets of the other contexts. -/
structure World where
  handle : Sc → Option String
  description : Sc → Option String
  stablesOf : Sc → List STable
  objectsOf : Sc → List Obj
  codesOf : Sc → List Code
  stable : STable → StableInfo
  object : Obj → ObjectInfo
  code : Code → CodeInfo
  ctx : Ctx → CtxInfo

inductive Fault where
  | exception (message : String)
  /-- A reallocation fails, because doubling a 32-bit size overflows. -/
  | outOfMemory
  /-- An attribute of `PMCNULL` is read. -/
  | nullDereference
  deriving DecidableEq, Repr

@[irreducible]
def int4 (value : Int) : Int := value.bmod 4294967296

/-- The data segments a writing function can write to. -/
inductive DataSegment where
  | stables
  | objects
  | contexts
  deriving DecidableEq, Repr

/-- A data segment: the bytes written so far and the size allocated. -/
structure Buffer where
  bytes : List UInt8
  limit : Int

structure DependencyRow where
  handle : Int
  description : Int
  deriving DecidableEq, Repr

structure StableRow where
  reprName : Int
  dataOffset : Int
  deriving DecidableEq, Repr

structure ObjectRow where
  stableSc : Int
  stableIdx : Int
  dataOffset : Int
  concrete : Int
  deriving DecidableEq, Repr

structure ClosureRow where
  staticSc : Int
  staticIdx : Int
  contextIdx : Int
  /-- The context and index of the code object, if the closure has one. -/
  codeObject : Option (Int × Int)
  deriving DecidableEq, Repr

structure ContextRow where
  staticSc : Int
  staticIdx : Int
  dataOffset : Int
  outerIdx : Int
  deriving DecidableEq, Repr

structure Writer where
  sc : Sc
  scOfStable : STable → Option Sc
  scOfObject : Obj → Option Sc
  scOfCode : Code → Option Sc
  scOfCtx : Ctx → Option Sc
  stablesList : List STable
  objectsList : List Obj
  codesList : List Code
  contextsList : List Ctx
  stringHeap : List (Option String)
  seenStrings : List (String × Nat)
  dependentScs : List Sc
  dependenciesTable : List DependencyRow
  dependenciesAlloc : Int
  stablesTable : List StableRow
  stablesAlloc : Int
  objectsTable : List ObjectRow
  objectsAlloc : Int
  closuresTable : List ClosureRow
  closuresAlloc : Int
  contextsTable : List ContextRow
  contextsAlloc : Int
  buffers : DataSegment → Buffer
  /-- The segment that `cur_write_buffer` and its companions point into. -/
  current : DataSegment

/-- The root sets of the context, and the contexts that things are in before. -/
structure Roots where
  sc : Sc
  stables : List STable
  objects : List Obj
  codes : List Code
  scOfStable : STable → Option Sc
  scOfObject : Obj → Option Sc
  scOfCode : Code → Option Sc
  scOfCtx : Ctx → Option Sc
  /-- `rep_indexes` and `rep_scs` -/
  repossessions : List (Nat × Sc)

/-- The first entry of the string heap is the null string. -/
def Writer.start (roots : Roots) : Writer :=
  let scElems := max (int4 roots.objects.length) 1
  { sc := roots.sc
    scOfStable := roots.scOfStable
    scOfObject := roots.scOfObject
    scOfCode := roots.scOfCode
    scOfCtx := roots.scOfCtx
    stablesList := roots.stables
    objectsList := roots.objects
    codesList := roots.codes
    contextsList := []
    stringHeap := [none]
    seenStrings := []
    dependentScs := []
    dependenciesTable := []
    dependenciesAlloc := 8 * 4
    stablesTable := []
    stablesAlloc := 8 * 16
    objectsTable := []
    objectsAlloc := int4 (16 * scElems)
    closuresTable := []
    closuresAlloc := 24 * 16
    contextsTable := []
    contextsAlloc := 16 * 4
    buffers := fun segment =>
      match segment with
      | .stables => ⟨[], 4096⟩
      | .objects => ⟨[], int4 (8 * scElems)⟩
      | .contexts => ⟨[], 1024⟩
    current := .stables }

/-- The size is doubled once, as a 32-bit integer. -/
def growAlloc (alloc used need : Int) : Except Fault Int :=
  if used + need > alloc then
    let doubled := int4 (alloc * 2)
    if used + need ≤ doubled then .ok doubled else .error .outOfMemory
  else .ok alloc

namespace Writer

/-- The bytes written to the current segment. -/
def data (w : Writer) : List UInt8 := (w.buffers w.current).bytes

/-- `expand_storage_if_needed`, then the bytes at the current offset. -/
def put (w : Writer) (bytes : List UInt8) : Except Fault Writer := do
  let buffer := w.buffers w.current
  let limit ← growAlloc buffer.limit buffer.bytes.length bytes.length
  .ok { w with buffers := Function.update w.buffers w.current ⟨buffer.bytes ++ bytes, limit⟩ }

def putInt16 (w : Writer) (value : Int) : Except Fault Writer :=
  w.put (signedToBytes 2 value)

def putInt32 (w : Writer) (value : Int) : Except Fault Writer :=
  w.put (signedToBytes 4 value)

/-- The context ID and the index of a reference: storage for both is ensured once. -/
def putPair (w : Writer) (scId idx : Int) : Except Fault Writer :=
  w.put (signedToBytes 4 scId ++ signedToBytes 4 idx)

def writeInt (w : Writer) (value : BitVec 64) : Except Fault Writer :=
  w.put (toBytes 8 value.toNat)

def writeNum (w : Writer) (bits : BitVec 64) : Except Fault Writer :=
  w.put (toBytes 8 bits.toNat)

def addStringToHeap (w : Writer) : Option String → Writer × Int
  | none => (w, 0)
  | some s =>
    match w.seenStrings.lookup s with
    | some idx => (w, int4 idx)
    | none =>
      let nextIdx := w.stringHeap.length
      ({ w with
        stringHeap := w.stringHeap ++ [some s]
        seenStrings := (s, nextIdx) :: w.seenStrings }, int4 nextIdx)

def writeStr (w : Writer) (value : Option String) : Except Fault Writer :=
  let (w, heapLoc) := w.addStringToHeap value
  w.putInt32 heapLoc

/-- The row of a new dependency needs its strings. -/
def pushDependency (world : World) (w : Writer) (sc : Sc) : Writer :=
  let w := { w with dependentScs := w.dependentScs ++ [sc] }
  let (w, handle) := w.addStringToHeap (world.handle sc)
  let (w, description) := w.addStringToHeap (world.description sc)
  { w with dependenciesTable := w.dependenciesTable ++ [⟨handle, description⟩] }

def getScId (world : World) (w : Writer) (sc : Sc) : Except Fault (Writer × Int) :=
  if w.sc = sc then .ok (w, 0)
  else
    match w.dependentScs.idxOf? sc with
    | some i => .ok (w, int4 i + 1)
    | none => do
      let numDeps := w.dependentScs.length
      let alloc ← growAlloc w.dependenciesAlloc (numDeps * 8) 8
      let w := { w with dependenciesAlloc := alloc }
      .ok (w.pushDependency world sc, int4 (numDeps + 1))

def rootStables (world : World) (w : Writer) (sc : Sc) : List STable :=
  if sc = w.sc then w.stablesList else world.stablesOf sc

def rootObjects (world : World) (w : Writer) (sc : Sc) : List Obj :=
  if sc = w.sc then w.objectsList else world.objectsOf sc

def rootCodes (world : World) (w : Writer) (sc : Sc) : List Code :=
  if sc = w.sc then w.codesList else world.codesOf sc

def findStableIdx (world : World) (w : Writer) (sc : Sc) (st : STable) : Except Fault Nat :=
  match (w.rootStables world sc).idxOf? st with
  | some i => .ok i
  | none => .error (.exception "STable does not exist in serialization context")

def findObjectIdx (world : World) (w : Writer) (sc : Sc) (obj : Obj) : Except Fault Nat :=
  match (w.rootObjects world sc).idxOf? obj with
  | some i => .ok i
  | none => .error (.exception "Object does not exist in serialization context")

def findCodeIdx (world : World) (w : Writer) (sc : Sc) (code : Code) : Except Fault Nat :=
  match (w.rootCodes world sc).idxOf? code with
  | some i => .ok i
  | none =>
    let name := (world.code code).name
    .error (.exception s!"Code ref '{name}' does not exist in serialization context")

/-- Put an STable that has no context into the one being serialized. -/
def claimStable (w : Writer) (st : STable) : Writer × Sc :=
  match w.scOfStable st with
  | some sc => (w, sc)
  | none =>
    ({ w with
      scOfStable := Function.update w.scOfStable st (some w.sc)
      stablesList := w.stablesList ++ [st] }, w.sc)

/-- Put an object that has no context into the one being serialized. -/
def claimObject (w : Writer) (obj : Obj) : Writer × Sc :=
  match w.scOfObject obj with
  | some sc => (w, sc)
  | none =>
    ({ w with
      scOfObject := Function.update w.scOfObject obj (some w.sc)
      objectsList := w.objectsList ++ [obj] }, w.sc)

def getStableRefInfo (world : World) (w : Writer) (st : STable) :
    Except Fault (Writer × Int × Int) := do
  let (w, sc) := w.claimStable st
  let (w, scId) ← w.getScId world sc
  let idx ← w.findStableIdx world sc st
  .ok (w, scId, int4 idx)

def writeStableRef (world : World) (w : Writer) (st : STable) : Except Fault Writer := do
  let (w, scId, idx) ← w.getStableRefInfo world st
  w.putPair scId idx

/-- The context ID and index of an object, which is put on the work list if it has
no context. -/
def getObjectRefInfo (world : World) (w : Writer) (obj : Obj) :
    Except Fault (Writer × Int × Int) := do
  let (w, sc) := w.claimObject obj
  let (w, scId) ← w.getScId world sc
  let idx ← w.findObjectIdx world sc obj
  .ok (w, scId, int4 idx)

def writeObjRef (world : World) (w : Writer) (obj : Obj) : Except Fault Writer := do
  let (w, scId, idx) ← w.getObjectRefInfo world obj
  w.putPair scId idx

def closureToStaticCodeRef (world : World) (closure : Code) (fatal : Bool) :
    Except Fault (Option Code) :=
  let name := (world.code closure).name
  match (world.code closure).lexInfo with
  | .null =>
    if fatal then
      .error (.exception s!"Serialization Error: NULL lexical info for closure '{name}'")
    else .ok none
  | .lexpad none =>
    if fatal then
      .error (.exception s!"Serialization Error: missing static code ref for closure '{name}'")
    else .ok none
  | .lexpad (some staticCode) =>
    if (world.code staticCode).isStaticCodeRef then .ok (some staticCode)
    else if fatal then
      let staticName := (world.code staticCode).name
      .error (.exception
        s!"Serialization Error: could not locate static code ref for closure '{staticName}'")
    else .ok none
  | .unknown =>
    .error (.exception s!"Serialization Error: unknown static lexical info type for '{name}'")

def getSerializedContextIdx (world : World) (w : Writer) (ctx : Ctx) :
    Except Fault (Writer × Int) :=
  match w.scOfCtx ctx with
  | none => do
    let staticCode ← closureToStaticCodeRef world (world.ctx ctx).currentSub false
    match staticCode with
    | none => .ok (w, 0)
    | some _ =>
      let idx := w.contextsList.length
      .ok ({ w with
        contextsList := w.contextsList ++ [ctx]
        scOfCtx := Function.update w.scOfCtx ctx (some w.sc) }, int4 idx + 1)
  | some sc =>
    if sc ≠ w.sc then
      .error (.exception "Serialization Error: reference to context outside of SC")
    else
      match w.contextsList.idxOf? ctx with
      | some i => .ok (w, int4 i + 1)
      | none =>
        .error (.exception "Serialization Error: could not locate outer context in current SC")

def getSerializedOuterContextIdx (world : World) (w : Writer) (closure : Code) :
    Except Fault (Writer × Int) :=
  if (world.code closure).compilerStub then .ok (w, 0)
  else
    match (world.code closure).outerCtx with
    | none => .ok (w, 0)
    | some ctx => w.getSerializedContextIdx world ctx

/-- The context of a static code reference; without one the code reads attributes of
`PMCNULL`. -/
def staticCodeSc (w : Writer) (staticCode : Code) : Except Fault Sc :=
  match w.scOfCode staticCode with
  | some sc => .ok sc
  | none => .error .nullDereference

def getCodeObjectInfo (world : World) (w : Writer) (closure : Code) :
    Except Fault (Writer × Option (Int × Int)) :=
  match (world.code closure).codeObject with
  | none => .ok (w, none)
  | some obj => do
    let (w, scId, idx) ← w.getObjectRefInfo world obj
    .ok (w, some (scId, idx))

def serializeClosure (world : World) (w : Writer) (closure : Code) : Except Fault Writer := do
  let staticCode ← closureToStaticCodeRef world closure true
  match staticCode with
  | none => .error .nullDereference
  | some staticCode => do
    let alloc ← growAlloc w.closuresAlloc (w.closuresTable.length * 24) 24
    let w := { w with closuresAlloc := alloc }
    let (w, contextIdx) ← w.getSerializedOuterContextIdx world closure
    let staticSc ← w.staticCodeSc staticCode
    let (w, staticScId) ← w.getScId world staticSc
    let staticIdx ← w.findCodeIdx world staticSc staticCode
    let (w, codeObject) ← w.getCodeObjectInfo world closure
    .ok { w with
      closuresTable := w.closuresTable ++ [⟨staticScId, int4 staticIdx, contextIdx, codeObject⟩]
      codesList := w.codesList ++ [closure]
      scOfCode := Function.update w.scOfCode closure (some w.sc) }

/-- The discriminator; a closure in no context yet is serialized first. -/
def codeDiscriminator (world : World) (w : Writer) (code : Code) : Except Fault (Writer × Int) :=
  match w.scOfCode code with
  | some _ => .ok (w, if (world.code code).isStaticCodeRef then 11 else 12)
  | none => do
    let w ← w.serializeClosure world code
    .ok (w, 12)

def writeCodeRef (world : World) (w : Writer) (code : Code) : Except Fault Writer := do
  let codeSc ← w.staticCodeSc code
  let (w, scId) ← w.getScId world codeSc
  let idx ← w.findCodeIdx world codeSc code
  w.putPair scId (int4 idx)

/-- The loop of `write_array_int`, for as many elements as the 32-bit count says. -/
def writeInts (w : Writer) : Nat → List (BitVec 64) → Except Fault Writer
  | 0, _ => .ok w
  | _, [] => .ok w
  | count + 1, value :: values => do
    let w ← w.writeInt value
    w.writeInts count values

/-- The loop of `write_array_str`. -/
def writeStrs (w : Writer) : Nat → List (Option String) → Except Fault Writer
  | 0, _ => .ok w
  | _, [] => .ok w
  | count + 1, value :: values => do
    let w ← w.writeStr value
    w.writeStrs count values

/-- Element counts are cast to `Parrot_Int4`. -/
def elementCount (length : Nat) : Int := int4 length

mutual

/-- `write_ref_func`: the discriminator, then what it calls for. -/
def writeRef (world : World) (w : Writer) : VMValue → Except Fault Writer
  | .null => w.putInt16 1
  | .vmNull => w.putInt16 3
  | .undef => w.putInt16 3
  | .dropped _ => w.putInt16 3
  | .object obj => do
    let w ← w.putInt16 2
    w.writeObjRef world obj
  | .int value => do
    let w ← w.putInt16 4
    w.writeInt value
  | .num bits => do
    let w ← w.putInt16 5
    w.writeNum bits
  | .str value => do
    let w ← w.putInt16 6
    w.writeStr value
  | .array elements => do
    let w ← w.putInt16 7
    let w ← w.putInt32 (elementCount elements.length)
    writeElements world w (elementCount elements.length).toNat elements
  | .strArray elements => do
    let w ← w.putInt16 8
    let w ← w.putInt32 (elementCount elements.length)
    w.writeStrs (elementCount elements.length).toNat elements
  | .intArray elements => do
    let w ← w.putInt16 9
    let w ← w.putInt32 (elementCount elements.length)
    w.writeInts (elementCount elements.length).toNat elements
  | .hash entries => do
    let w ← w.putInt16 10
    let w ← w.putInt32 (elementCount entries.length)
    writeEntries world w entries
  | .code code => do
    let (w, discrim) ← w.codeDiscriminator world code
    let w ← w.putInt16 discrim
    w.writeCodeRef world code
  | .parrotObject className =>
    .error (.exception
      s!"Serialization Error: Parrot object type '{className}' passed to write_ref")
  | .unimplemented whoami =>
    .error (.exception
      s!"Serialization Error: Unimplemented object type '{whoami}' passed to write_ref")

/-- The loop of `write_array_var`. -/
def writeElements (world : World) (w : Writer) : Nat → List VMValue → Except Fault Writer
  | 0, _ => .ok w
  | _, [] => .ok w
  | count + 1, value :: values => do
    let w ← writeRef world w value
    writeElements world w count values

/-- The loop of `write_hash_str_var`, which goes on until the iterator is at its
end. -/
def writeEntries (world : World) (w : Writer) : List (String × VMValue) → Except Fault Writer
  | [] => .ok w
  | (key, value) :: entries => do
    let w ← w.writeStr (some key)
    let w ← writeRef world w value
    writeEntries world w entries

end

def writeItem (world : World) (w : Writer) : Item → Except Fault Writer
  | .int value => w.writeInt value
  | .num bits => w.writeNum bits
  | .str value => w.writeStr value
  | .ref value => w.writeRef world value
  | .objRef obj => w.writeObjRef world obj
  | .stableRef st => w.writeStableRef world st

def writeItems (world : World) (w : Writer) : List Item → Except Fault Writer
  | [] => .ok w
  | item :: items => do
    let w ← w.writeItem world item
    w.writeItems world items

end Writer

end RakudoStar.Serialization
