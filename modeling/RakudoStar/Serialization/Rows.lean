import RakudoStar.Serialization.Claiming

/-!
# Rows and what they describe

Serializing one thing adds one row and data that can be read back from the offset in it. Rows
made earlier keep describing their things.
-/

namespace RakudoStar.Serialization

open Foundation List RakudoStar.Except

/-- The rows describe the entries of the list from its start, one each. -/
def TableOf {α β : Type} (describes : α → β → Prop) (list : List α) (table : List β) : Prop :=
  List.Forall₂ describes (list.take table.length) table

namespace TableOf

variable {α β : Type} {describes later : α → β → Prop} {list longer : List α}
  {table : List β}

section
variable (rows : TableOf describes list table)
include rows

theorem length_le : table.length ≤ list.length := by
  have same := rows.length_eq
  rw [length_take] at same
  omega

theorem grow (pre : list <+: longer)
    (keeps : ∀ {entry row}, describes entry row → later entry row) :
    TableOf later longer table := by
  obtain ⟨tail, rfl⟩ := pre
  rw [TableOf, take_append_of_le_length rows.length_le]
  exact rows.imp fun _ _ => keeps

theorem push {entry : α} {row : β} (next : list[table.length]? = some entry)
    (described : describes entry row) : TableOf describes list (table ++ [row]) := by
  have taken : list.take (table.length + 1) = list.take table.length ++ [entry] := by
    rw [take_add_one, next, Option.toList_some]
  rw [TableOf, length_append, length_singleton, taken]
  exact rel_append rows (List.Forall₂.cons described List.Forall₂.nil)

theorem forall₂ (all : table.length = list.length) : List.Forall₂ describes list table := by
  rw [TableOf, all, take_length] at rows
  exact rows

end

end TableOf

/-- From the offset on, the segment has bytes that are read back as what was written. -/
def Recorded (world : World) (w : Writer) (segment : DataSegment) (offset : Int)
    (items : List Item) : Prop :=
  ∃ start bytes : List UInt8, offset = start.length ∧ start ++ bytes <+: (w.buffers segment).bytes ∧
    ∀ {r : Reader} {tail : List UInt8}, Follows world w r → r.rest = bytes ++ tail →
      r.readItems (items.map Item.kind) = .ok (items.map Item.readBack, r.advance bytes.length)

structure DescribesStable (world : World) (w : Writer) (st : STable) (row : StableRow) : Prop where
  reprName : ∃ i : Nat, row.reprName = i ∧ w.stringHeap[i]? = some (world.stable st).reprName
  data : Recorded world w .stables row.dataOffset (stableItems (world.stable st))

structure DescribesObject (world : World) (w : Writer) (obj : Obj) (row : ObjectRow) : Prop where
  stable : Writer.DenotesStable world w row.stableSc row.stableIdx (world.object obj).stable
  concrete : row.concrete = if (world.object obj).concrete then 1 else 0
  data : Recorded world w .objects row.dataOffset (World.bodyItems (world.object obj))

structure DescribesContext (world : World) (w : Writer) (ctx : Ctx) (row : ContextRow) : Prop where
  staticCode : ∃ staticCode,
    Writer.closureToStaticCodeRef world (world.ctx ctx).currentSub true = .ok (some staticCode) ∧
    Writer.DenotesCode world w row.staticSc row.staticIdx staticCode
  outer : DescribesOuter world w (world.ctx ctx).outerCtx row.outerIdx
  data : Recorded world w .contexts row.dataOffset (contextItems (world.ctx ctx))

/-- Each table has rows for the first entries of its list. -/
structure Rows (world : World) (w : Writer) : Prop where
  stables : TableOf (DescribesStable world w) w.stablesList w.stablesTable
  objects : TableOf (DescribesObject world w) w.objectsList w.objectsTable
  contexts : TableOf (DescribesContext world w) w.contextsList w.contextsTable

/-- No array or hash that is written has 2^31 elements or more. -/
structure World.Fits (world : World) : Prop where
  stables : ∀ st, ∀ item ∈ stableItems (world.stable st), item.Fits
  objects : ∀ obj, ∀ item ∈ World.bodyItems (world.object obj), item.Fits
  contexts : ∀ ctx, ∀ item ∈ contextItems (world.ctx ctx), item.Fits

variable {world : World}

section

variable {before after : Writer}

section
variable (grown : Grown before after)
include grown

theorem Recorded.of_grown {segment : DataSegment} {offset : Int} {items : List Item}
    (recorded : Recorded world before segment offset items) :
    Recorded world after segment offset items := by
  obtain ⟨start, bytes, offsetEq, pre, readBack⟩ := recorded
  exact ⟨start, bytes, offsetEq, pre.trans (grown.buffers segment),
    fun follows rest => readBack (follows.of_grown grown) rest⟩

theorem DescribesStable.of_grown {st : STable} {row : StableRow}
    (describes : DescribesStable world before st row) : DescribesStable world after st row where
  reprName := by
    obtain ⟨i, name, known⟩ := describes.reprName
    exact ⟨i, name, getElem?_of_pre grown.heap known⟩
  data := describes.data.of_grown grown

theorem DescribesObject.of_grown {obj : Obj} {row : ObjectRow}
    (describes : DescribesObject world before obj row) : DescribesObject world after obj row where
  stable := describes.stable.of_grown grown
  concrete := describes.concrete
  data := describes.data.of_grown grown

theorem DescribesContext.of_grown {ctx : Ctx} {row : ContextRow}
    (describes : DescribesContext world before ctx row) : DescribesContext world after ctx row where
  staticCode := by
    obtain ⟨staticCode, isStatic, denotes⟩ := describes.staticCode
    exact ⟨staticCode, isStatic, denotes.of_grown grown⟩
  outer := describes.outer.of_grown grown
  data := describes.data.of_grown grown

end

end

/-- The rows that serializing a node adds to each of the three tables. -/
def Node.stableRows : Node → Nat
  | .stable _ => 1
  | _ => 0

def Node.objectRows : Node → Nat
  | .object _ => 1
  | _ => 0

def Node.contextRows : Node → Nat
  | .context _ => 1
  | _ => 0

/-- One step meets what the node refers to, adds a row and keeps what is sound. -/
structure Serializes (world : World) (roots : Roots) (before after : Writer) (node : Node) :
    Prop where
  discovers : Discovers world roots before after (world.references node)
  sound : Sound world before → Sound world after
  stableRows : after.stablesTable.length = before.stablesTable.length + node.stableRows
  objectRows : after.objectsTable.length = before.objectsTable.length + node.objectRows
  contextRows : after.contextsTable.length = before.contextsTable.length + node.contextRows
  rows : Sound world before → Bounded world after → Rows world before → Rows world after

section

variable {roots : Roots} {w after : Writer}

theorem recorded_of_written {rowed : Writer} {segment : DataSegment} {items : List Item}
    (sound : Sound world w) (rowedSound : Sound world rowed)
    (buffers : rowed.buffers = w.buffers) (current : rowed.current = segment)
    (fit : ∀ item ∈ items, item.Fits) (run : rowed.writeItems world items = .ok after)
    (bounded : Bounded world after) :
    Recorded world after segment (int4 (rowed.buffers segment).bytes.length) items := by
  rw [buffers]
  have emits := writeItems_emits fit run
  obtain ⟨bytes, written, readBack⟩ := emits.encoded rowedSound bounded
  exists (w.buffers segment).bytes, bytes
  constructor
  · exact int4_eq (sound.lengths segment)
  constructor
  · rw [Writer.data, Writer.data, emits.grown.current, current, buffers] at written
    exact written ▸ prefix_rfl
  · intro r tail follows rest
    exact @readBack r bytes.length tail follows le_rfl rest

theorem serializeStable_serializes (fits : world.Fits) {st : STable}
    (next : w.stablesList[w.stablesTable.length]? = some st)
    (run : w.serializeStable world st = .ok after) :
    Serializes world roots w after (.stable st) := by
  obtain ⟨alloc, -, run⟩ := of_bind run
  let reserved : Writer := { w with stablesAlloc := alloc }
  let named := (reserved.addStringToHeap (world.stable st).reprName)
  let row : StableRow := ⟨named.2, int4 (named.1.buffers .stables).bytes.length⟩
  let rowed : Writer := { named.1 with
    stablesTable := named.1.stablesTable ++ [row]
    current := .stables }
  have written : rowed.writeItems world (stableItems (world.stable st)) = .ok after := run
  have quiet := Writer.addStringToHeap_quiet world reserved (world.stable st).reprName
  have emits := writeItems_emits (fits.stables st) written
  have rowedGrown : Grown w rowed := by
    have start : Grown w reserved := { Grown.refl w with }
    have pushed : Grown named.1 rowed :=
      { Grown.refl named.1 with stableRows := prefix_append .. }
    exact (start.trans quiet.grown.toGrown).trans pushed
  have rowedSound : Sound world w → Sound world rowed := by
    intro sound
    have namedSound : Sound world named.1 := quiet.sound { sound with }
    exact { namedSound with }
  have unclaimed : Unclaimed w rowed := by
    have start : Unclaimed w reserved :=
      ⟨fun node => by cases node <;> rfl, rfl, rfl, rfl, rfl, rfl⟩
    have pushed : Unclaimed named.1 rowed :=
      ⟨fun node => by cases node <;> rfl, rfl, rfl, rfl, rfl, rfl⟩
    exact (start.trans (Writer.addStringToHeap_unclaimed reserved _)).trans pushed
  have table : after.stablesTable = w.stablesTable ++ [row] :=
    emits.grown.stablesTable.trans (congrArg (· ++ [row]) quiet.grown.stablesTable)
  have objectsTable := emits.grown.objectsTable.trans quiet.grown.objectsTable
  have contextsTable := emits.grown.contextsTable.trans quiet.grown.contextsTable
  constructor
  · exact (Discovers.of_unclaimed rowedGrown unclaimed).trans
      (writeItems_discovers (fits.stables st) written)
  · exact fun sound => emits.sound (rowedSound sound)
  · rw [table, length_append]
    rfl
  · exact congrArg length objectsTable
  · exact congrArg length contextsTable
  · intro sound bounded rows
    have grown := rowedGrown.trans emits.grown.toGrown
    have described : DescribesStable world after st row := by
      constructor
      · have interned : Interned reserved := { sound.toInterned with }
        obtain ⟨i, name, known⟩ := Writer.addStringToHeap_index interned (world.stable st).reprName
        have there := getElem?_of_pre emits.grown.heap known
        have small := (lt_length_of_getElem? there).trans_le bounded.heap
        exact ⟨i, name.trans (int4_eq small), there⟩
      exact @recorded_of_written world w after rowed .stables _ sound (rowedSound sound)
        quiet.buffers rfl (fits.stables st) written bounded
    constructor
    · rw [table]
      exact (rows.stables.grow grown.stables (·.of_grown grown)).push
        (getElem?_of_pre grown.stables next) described
    · rw [objectsTable]
      exact rows.objects.grow grown.objects (·.of_grown grown)
    · rw [contextsTable]
      exact rows.contexts.grow grown.contexts (·.of_grown grown)

theorem serializeBody_items {obj : ObjectInfo} (run : w.serializeBody world obj = .ok after) :
    w.writeItems world (World.bodyItems obj) = .ok after := by
  rw [Writer.serializeBody] at run
  rw [World.bodyItems]
  split at run
  · rename_i concrete
    rw [if_pos concrete]
    split at run
    · rename_i items hasBody
      rw [hasBody]
      exact run
    · cases run
  · rename_i typeObject
    rw [if_neg typeObject]
    exact run

theorem serializeObject_serializes (fits : world.Fits) {obj : Obj}
    (next : w.objectsList[w.objectsTable.length]? = some obj)
    (run : w.serializeObject world obj = .ok after) :
    Serializes world roots w after (.object obj) := by
  rw [Writer.serializeObject] at run
  split at run
  · obtain ⟨⟨referred, stableSc, stableIdx⟩, stableRun, run⟩ := of_bind run
    obtain ⟨alloc, -, run⟩ := of_bind run
    let row : ObjectRow := ⟨stableSc, stableIdx, int4 (referred.buffers .objects).bytes.length,
      if (world.object obj).concrete then 1 else 0⟩
    let rowed : Writer := { referred with
      objectsAlloc := alloc
      objectsTable := referred.objectsTable ++ [row]
      current := .objects }
    have written : rowed.writeItems world (World.bodyItems (world.object obj)) = .ok after :=
      serializeBody_items run
    obtain ⟨quiet, denotes⟩ := Writer.getStableRefInfo_spec stableRun
    have emits := writeItems_emits (fits.objects obj) written
    have pushed : Grown referred rowed :=
      { Grown.refl referred with objectRows := prefix_append .. }
    have rowedSound : Sound world w → Sound world rowed := by
      intro sound
      exact { quiet.sound sound with }
    have table : after.objectsTable = w.objectsTable ++ [row] :=
      emits.grown.objectsTable.trans (congrArg (· ++ [row]) quiet.grown.objectsTable)
    have stablesTable := emits.grown.stablesTable.trans quiet.grown.stablesTable
    have contextsTable := emits.grown.contextsTable.trans quiet.grown.contextsTable
    constructor
    · have same : Discovers world roots referred rowed [] :=
        Discovers.of_unclaimed pushed ⟨fun node => by cases node <;> rfl, rfl, rfl, rfl, rfl, rfl⟩
      exact ((Writer.getStableRefInfo_discovers stableRun).trans same).trans
        (writeItems_discovers (fits.objects obj) written)
    · exact fun sound => emits.sound (rowedSound sound)
    · exact congrArg length stablesTable
    · rw [table, length_append]
      rfl
    · exact congrArg length contextsTable
    · intro sound bounded rows
      have later := pushed.trans emits.grown.toGrown
      have grown := quiet.grown.toGrown.trans later
      have described : DescribesObject world after obj row := by
        constructor
        · exact (denotes (bounded.of_grown later)).of_grown later
        · rfl
        exact @recorded_of_written world w after rowed .objects _ sound (rowedSound sound)
          quiet.buffers rfl (fits.objects obj) written bounded
      constructor
      · rw [stablesTable]
        exact rows.stables.grow grown.stables (·.of_grown grown)
      · rw [table]
        exact (rows.objects.grow grown.objects (·.of_grown grown)).push
          (getElem?_of_pre grown.objects next) described
      · rw [contextsTable]
        exact rows.contexts.grow grown.contexts (·.of_grown grown)
  · cases run

theorem serializeContext_serializes (fits : world.Fits) {ctx : Ctx}
    (next : w.contextsList[w.contextsTable.length]? = some ctx)
    (run : w.serializeContext world ctx = .ok after) :
    Serializes world roots w after (.context ctx) := by
  obtain ⟨staticCode, staticRun, run⟩ := of_bind run
  cases staticCode with
  | none => cases run
  | some staticCode =>
    cases isIn : w.scOfCode staticCode with
    | none =>
      simp only [isIn] at run
      cases run
    | some staticSc =>
      simp only [isIn] at run
      obtain ⟨⟨referred, staticScId⟩, scRun, run⟩ := of_bind run
      obtain ⟨staticIdx, findRun, run⟩ := of_bind run
      obtain ⟨alloc, -, run⟩ := of_bind run
      obtain ⟨⟨claimed, outerIdx⟩, outerRun, run⟩ := of_bind run
      let reserved : Writer := { referred with contextsAlloc := alloc }
      let row : ContextRow := ⟨staticScId, int4 staticIdx,
        int4 (referred.buffers .contexts).bytes.length, outerIdx⟩
      let rowed : Writer := { claimed with
        contextsTable := claimed.contextsTable ++ [row]
        current := .contexts }
      have written : rowed.writeItems world (contextItems (world.ctx ctx)) = .ok after := run
      have outerRun : reserved.outerContextIdx world (world.ctx ctx).outerCtx =
        .ok (claimed, outerIdx) := outerRun
      have outer := Writer.OuterIdx.of_option outerRun
      have reserves : Quiet world referred reserved :=
        ⟨{ Extends.refl referred with }, rfl, fun sound => { sound with }⟩
      have named := Writer.getScId_quiet scRun
      have outerQuiet := outer.quiet
      have quiet := (named.trans reserves).trans outerQuiet
      have emits := writeItems_emits (fits.contexts ctx) written
      have pushed : Grown claimed rowed :=
        { Grown.refl claimed with contextRows := prefix_append .. }
      have later := pushed.trans emits.grown.toGrown
      have rowedSound : Sound world w → Sound world rowed := by
        intro sound
        exact { quiet.sound sound with }
      have table : after.contextsTable = w.contextsTable ++ [row] :=
        emits.grown.contextsTable.trans (congrArg (· ++ [row]) quiet.grown.contextsTable)
      have stablesTable := emits.grown.stablesTable.trans quiet.grown.stablesTable
      have objectsTable := emits.grown.objectsTable.trans quiet.grown.objectsTable
      constructor
      · have start : Discovers world roots referred reserved [] :=
          Discovers.of_unclaimed reserves.grown.toGrown
            ⟨fun node => by cases node <;> rfl, rfl, rfl, rfl, rfl, rfl⟩
        have same : Discovers world roots claimed rowed [] :=
          Discovers.of_unclaimed pushed ⟨fun node => by cases node <;> rfl, rfl, rfl, rfl, rfl, rfl⟩
        have met := (((Writer.getScId_discovers scRun).trans start).trans
          outer.discovers).trans same
        rw [append_nil] at met
        exact met.trans (writeItems_discovers (fits.contexts ctx) written)
      · exact fun sound => emits.sound (rowedSound sound)
      · exact congrArg length stablesTable
      · exact congrArg length objectsTable
      · rw [table, length_append]
        rfl
      · intro sound bounded rows
        have grown := quiet.grown.toGrown.trans later
        have afterNamed := (reserves.trans outerQuiet).grown.toGrown.trans later
        have described : DescribesContext world after ctx row := by
          constructor
          · have denotes := Writer.denotesCode_of_found (bounded.of_grown afterNamed) scRun findRun
            exact ⟨staticCode, staticRun, denotes.of_grown afterNamed⟩
          · exact outer.describes.of_grown later
          have recorded := @recorded_of_written world w after rowed .contexts _ sound
            (rowedSound sound) quiet.buffers rfl (fits.contexts ctx) written bounded
          rw [show rowed.buffers = referred.buffers from outerQuiet.buffers] at recorded
          exact recorded
        constructor
        · rw [stablesTable]
          exact rows.stables.grow grown.stables (·.of_grown grown)
        · rw [objectsTable]
          exact rows.objects.grow grown.objects (·.of_grown grown)
        · rw [table]
          exact (rows.contexts.grow grown.contexts (·.of_grown grown)).push
            (getElem?_of_pre grown.contexts next) described

end

end RakudoStar.Serialization
