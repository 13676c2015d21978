import RakudoStar.Serialization.Writer

/-!
# The work-list loop

Serializing a thing makes its row, writes its data and may put more on the work lists. The loop
goes round until there is nothing to do; repossessions and header come last.
-/

namespace RakudoStar.Serialization

/-- A C condition as an integer. -/
def flag (condition : Bool) : BitVec 64 := if condition then 1 else 0

/-- The elements of an array with their number before them. -/
def countedRefs (values : List VMValue) : List Item :=
  .int (BitVec.ofNat 64 values.length) :: values.map Item.ref

def boolificationItems : Option BoolificationSpec → List Item
  | none => []
  | some spec => [.int spec.mode, .ref spec.method]

def containerItems : Option ContainerSpec → List Item
  | none => []
  | some spec =>
    [.ref spec.classHandle, .str spec.attrName, .int spec.hint, .ref spec.fetchMethod]

/-- The calls that `serialize_stable` makes. -/
def stableItems (st : StableInfo) : List Item :=
  [.objRef st.how, .objRef st.what, .ref st.who, .ref st.methodCache]
    ++ countedRefs st.vtable
    ++ countedRefs st.typeCheckCache
    ++ [.int st.modeFlags, .int (flag st.boolificationSpec.isSome)]
    ++ boolificationItems st.boolificationSpec
    ++ [.int (flag st.containerSpec.isSome)]
    ++ containerItems st.containerSpec
    ++ st.reprData

def lexicalItem : Lexical → Item
  | .int value => .int value
  | .num bits => .num bits
  | .str value => .str value
  | .ref value => .ref value

/-- The calls that `serialize_context` makes for the lexpad. -/
def contextItems (ctx : CtxInfo) : List Item :=
  .int (BitVec.ofNat 64 ctx.lexicals.length) ::
    ctx.lexicals.flatMap fun entry => [.str (some entry.1), lexicalItem entry.2]

namespace Writer

def serializeStable (world : World) (w : Writer) (st : STable) : Except Fault Writer := do
  let alloc ← growAlloc w.stablesAlloc (w.stablesTable.length * 8) 8
  let (w, reprName) :=
    { w with stablesAlloc := alloc }.addStringToHeap (world.stable st).reprName
  let dataOffset := int4 (w.buffers .stables).bytes.length
  let row : StableRow := ⟨reprName, dataOffset⟩
  { w with
    stablesTable := w.stablesTable ++ [row]
    current := .stables }.writeItems world (stableItems (world.stable st))

/-- What the representation writes for an object. -/
def serializeBody (world : World) (w : Writer) (obj : ObjectInfo) : Except Fault Writer :=
  if obj.concrete then
    match obj.body with
    | some items => w.writeItems world items
    | none => .error (.exception "Missing serialize REPR function")
  else .ok w

def serializeObject (world : World) (w : Writer) (obj : Obj) : Except Fault Writer :=
  if (world.object obj).isSixModelObject then do
    let (w, sc, scIdx) ← w.getStableRefInfo world (world.object obj).stable
    let alloc ← growAlloc w.objectsAlloc (w.objectsTable.length * 16) 16
    let dataOffset := int4 (w.buffers .objects).bytes.length
    let concrete := if (world.object obj).concrete then 1 else 0
    let row : ObjectRow := ⟨sc, scIdx, dataOffset, concrete⟩
    { w with
      objectsAlloc := alloc
      objectsTable := w.objectsTable ++ [row]
      current := .objects }.serializeBody world (world.object obj)
  else .error (.exception "Non-6model object in object serialization list")

def outerContextIdx (world : World) (w : Writer) : Option Ctx → Except Fault (Writer × Int)
  | none => .ok (w, 0)
  | some ctx => w.getSerializedContextIdx world ctx

def serializeContext (world : World) (w : Writer) (ctx : Ctx) : Except Fault Writer := do
  let staticCode ← closureToStaticCodeRef world (world.ctx ctx).currentSub true
  match staticCode with
  | none => .error .nullDereference
  | some staticCode =>
    match w.scOfCode staticCode with
    | none =>
      .error (.exception "Serialization Error: closure outer is a code object not in an SC")
    | some staticSc => do
      let (w, staticScId) ← w.getScId world staticSc
      let staticIdx ← w.findCodeIdx world staticSc staticCode
      let alloc ← growAlloc w.contextsAlloc (w.contextsTable.length * 16) 16
      let dataOffset := int4 (w.buffers .contexts).bytes.length
      let (w, outerIdx) ←
        { w with contextsAlloc := alloc }.outerContextIdx world (world.ctx ctx).outerCtx
      let row : ContextRow := ⟨staticScId, int4 staticIdx, dataOffset, outerIdx⟩
      { w with
        contextsTable := w.contextsTable ++ [row]
        current := .contexts }.writeItems world (contextItems (world.ctx ctx))

end Writer

/-- The writer with its positions in the work lists. -/
structure Work where
  writer : Writer
  stablesPos : Nat
  objectsPos : Nat
  contextsPos : Nat

/-- Serialize `count` entries of a work list, which may grow meanwhile. -/
def drain (listOf : Writer → List Nat) (serializeOne : Writer → Nat → Except Fault Writer) :
    Nat → Nat → Writer → Except Fault Writer
  | 0, _, w => .ok w
  | count + 1, pos, w =>
    match (listOf w)[pos]? with
    | none => .error .nullDereference
    | some thing => do
      let w ← serializeOne w thing
      drain listOf serializeOne count (pos + 1) w

/-- One round, up to the sizes that the lists have at its start, and whether it did
any work. -/
def Work.round (world : World) (work : Work) : Except Fault (Work × Bool) := do
  let stablesTodo := work.writer.stablesList.length
  let objectsTodo := work.writer.objectsList.length
  let contextsTodo := work.writer.contextsList.length
  let w ← drain Writer.stablesList (Writer.serializeStable world)
    (stablesTodo - work.stablesPos) work.stablesPos work.writer
  let w ← drain Writer.objectsList (Writer.serializeObject world)
    (objectsTodo - work.objectsPos) work.objectsPos w
  let w ← drain Writer.contextsList (Writer.serializeContext world)
    (contextsTodo - work.contextsPos) work.contextsPos w
  .ok (⟨w, max work.stablesPos stablesTodo, max work.objectsPos objectsTodo,
      max work.contextsPos contextsTodo⟩,
    decide (work.stablesPos < stablesTodo) || decide (work.objectsPos < objectsTodo) ||
      decide (work.contextsPos < contextsTodo))

/-- The loop of `serialize`, with a bound on its rounds. -/
def Work.loop (world : World) : Nat → Work → Except Fault (Option Work)
  | 0, _ => .ok none
  | rounds + 1, work => do
    let (work, workTodo) ← work.round world
    if workTodo then Work.loop world rounds work else .ok (some work)

def Work.start (roots : Roots) : Work := ⟨Writer.start roots, 0, 0, 0⟩

structure RepossessionRow where
  isStable : Bool
  objIdx : Int
  origSc : Int
  origIdx : Int
  deriving DecidableEq, Repr

namespace Writer

/-- The place of a repossessed thing in its original context. -/
def origIdx (world : World) (w : Writer) (isStable : Bool) (objIdx : Nat) (origSc : Sc) :
    Except Fault Nat :=
  if isStable then
    match w.stablesList[objIdx]? with
    | some st => w.findStableIdx world origSc st
    | none => .error (.exception "STable does not exist in serialization context")
  else
    match w.objectsList[objIdx]? with
    | some obj => w.findObjectIdx world origSc obj
    | none => .error (.exception "Object does not exist in serialization context")

/-- `serialize_repossessions`: an index holds twice the place, and one more for an
STable. -/
def serializeRepossessions (world : World) (w : Writer) :
    List (Nat × Sc) → Except Fault (Writer × List RepossessionRow)
  | [] => .ok (w, [])
  | (index, origSc) :: repossessions => do
    let objIdx := index / 2
    let isStable := index % 2 = 1
    let (w, origScId) ← w.getScId world origSc
    let origIdx ← w.origIdx world isStable objIdx origSc
    let (w, rows) ← w.serializeRepossessions world repossessions
    .ok (w, ⟨isStable, int4 objIdx, origScId, int4 origIdx⟩ :: rows)

end Writer

/-- The header of the output: where each table and data segment starts, and the rows
of each table. -/
structure Header where
  version : Int
  dependencies : Int × Int
  stables : Int × Int
  stablesData : Int
  objects : Int × Int
  objectsData : Int
  closures : Int × Int
  contexts : Int × Int
  contextsData : Int
  repossessions : Int × Int

/-- A 32-bit sum. -/
def plus4 (left right : Int) : Int := int4 (left + right)

/-- The bytes of a table: a 32-bit product. -/
def tableSize (rows entrySize : Nat) : Int := int4 (rows * entrySize)

/-- The size that `concatenate_outputs` allocates. -/
def outputSize (w : Writer) (repossessions : List RepossessionRow) : Int :=
  let size := plus4 0 64
  let size := plus4 size (tableSize w.dependenciesTable.length 8)
  let size := plus4 size (tableSize w.stablesTable.length 8)
  let size := plus4 size (w.buffers .stables).bytes.length
  let size := plus4 size (tableSize w.objectsTable.length 16)
  let size := plus4 size (w.buffers .objects).bytes.length
  let size := plus4 size (tableSize w.closuresTable.length 24)
  let size := plus4 size (tableSize w.contextsTable.length 16)
  let size := plus4 size (w.buffers .contexts).bytes.length
  plus4 size (tableSize repossessions.length 16)

/-- `concatenate_outputs`: put everything in place, one part after the other. -/
def concatenateOutputs (w : Writer) (repossessions : List RepossessionRow) : Except Fault Header :=
  let dependencies := plus4 0 64
  let stables := plus4 dependencies (tableSize w.dependenciesTable.length 8)
  let stablesData := plus4 stables (tableSize w.stablesTable.length 8)
  let objects := plus4 stablesData (w.buffers .stables).bytes.length
  let objectsData := plus4 objects (tableSize w.objectsTable.length 16)
  let closures := plus4 objectsData (w.buffers .objects).bytes.length
  let contexts := plus4 closures (tableSize w.closuresTable.length 24)
  let contextsData := plus4 contexts (tableSize w.contextsTable.length 16)
  let repos := plus4 contextsData (w.buffers .contexts).bytes.length
  let offset := plus4 repos (tableSize repossessions.length 16)
  if offset ≠ outputSize w repossessions then
    .error (.exception "Serialization sanity check failed: offset != output_size")
  else
    .ok
      { version := 1
        dependencies := (dependencies, w.dependenciesTable.length)
        stables := (stables, w.stablesTable.length)
        stablesData := stablesData
        objects := (objects, w.objectsTable.length)
        objectsData := objectsData
        closures := (closures, w.closuresTable.length)
        contexts := (contexts, w.contextsTable.length)
        contextsData := contextsData
        repossessions := (repos, repossessions.length) }

/-- What is left of a serialization. -/
structure Serialized where
  writer : Writer
  repossessions : List RepossessionRow
  header : Header

/-- `Serialization_serialize`, with a bound on the rounds of its loop. -/
def serialize (world : World) (roots : Roots) (rounds : Nat) :
    Except Fault (Option Serialized) := do
  match ← Work.loop world rounds (Work.start roots) with
  | none => .ok none
  | some work => do
    let (w, repossessions) ← work.writer.serializeRepossessions world roots.repossessions
    let header ← concatenateOutputs w repossessions
    .ok (some ⟨w, repossessions, header⟩)

end RakudoStar.Serialization
