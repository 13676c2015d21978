import Mathlib.Data.List.Forall2
import Mathlib.Data.List.Infix
import RakudoStar.Foundation.Except
import RakudoStar.Serialization.Reader

/-!
# What writing keeps

Writing only ever adds: to the string heap, the dependencies, the work lists and the tables.
What was written keeps its meaning in every later state, and in every reader that follows one.
-/

namespace RakudoStar.Serialization

open Foundation List RakudoStar.Except

/-- A later state: every list, table and data segment has grown at its end, if at
all. -/
structure Grown (before after : Writer) : Prop where
  sc : after.sc = before.sc
  stables : before.stablesList <+: after.stablesList
  objects : before.objectsList <+: after.objectsList
  codes : before.codesList <+: after.codesList
  contexts : before.contextsList <+: after.contextsList
  heap : before.stringHeap <+: after.stringHeap
  dependencies : before.dependentScs <+: after.dependentScs
  dependencyRows : before.dependenciesTable <+: after.dependenciesTable
  stableRows : before.stablesTable <+: after.stablesTable
  objectRows : before.objectsTable <+: after.objectsTable
  closureRows : before.closuresTable <+: after.closuresTable
  contextRows : before.contextsTable <+: after.contextsTable
  buffers : ∀ segment, (before.buffers segment).bytes <+: (after.buffers segment).bytes

theorem Grown.refl (w : Writer) : Grown w w where
  sc := rfl
  stables := prefix_rfl
  objects := prefix_rfl
  codes := prefix_rfl
  contexts := prefix_rfl
  heap := prefix_rfl
  dependencies := prefix_rfl
  dependencyRows := prefix_rfl
  stableRows := prefix_rfl
  objectRows := prefix_rfl
  closureRows := prefix_rfl
  contextRows := prefix_rfl
  buffers := fun _ => prefix_rfl

variable {first second third : Writer}

theorem Grown.trans (left : Grown first second)
    (right : Grown second third) : Grown first third where
  sc := right.sc.trans left.sc
  stables := left.stables.trans right.stables
  objects := left.objects.trans right.objects
  codes := left.codes.trans right.codes
  contexts := left.contexts.trans right.contexts
  heap := left.heap.trans right.heap
  dependencies := left.dependencies.trans right.dependencies
  dependencyRows := left.dependencyRows.trans right.dependencyRows
  stableRows := left.stableRows.trans right.stableRows
  objectRows := left.objectRows.trans right.objectRows
  closureRows := left.closureRows.trans right.closureRows
  contextRows := left.contextRows.trans right.contextRows
  buffers := fun segment => (left.buffers segment).trans (right.buffers segment)

/-- Later, with only the current data segment written to. -/
structure Extends (before after : Writer) : Prop extends Grown before after where
  current : after.current = before.current
  stablesTable : after.stablesTable = before.stablesTable
  objectsTable : after.objectsTable = before.objectsTable
  contextsTable : after.contextsTable = before.contextsTable
  otherBuffers : ∀ segment, segment ≠ before.current →
    after.buffers segment = before.buffers segment

theorem Extends.refl (w : Writer) : Extends w w where
  toGrown := Grown.refl w
  current := rfl
  stablesTable := rfl
  objectsTable := rfl
  contextsTable := rfl
  otherBuffers := fun _ _ => rfl

theorem Extends.trans (left : Extends first second)
    (right : Extends second third) : Extends first third where
  toGrown := left.toGrown.trans right.toGrown
  current := right.current.trans left.current
  stablesTable := right.stablesTable.trans left.stablesTable
  objectsTable := right.objectsTable.trans left.objectsTable
  contextsTable := right.contextsTable.trans left.contextsTable
  otherBuffers := by
    intro segment other
    rw [right.otherBuffers segment (left.current ▸ other), left.otherBuffers segment other]

variable {before after : Writer}

section

variable (world : World)

theorem ite_prefix {α : Type} {current : Prop} [Decidable current] {small big other : List α}
    (grown : small <+: big) :
    (if current then small else other) <+: if current then big else other := by
  split
  · exact grown
  · exact prefix_rfl

theorem Grown.rootStables (grown : Grown before after) (sc : Sc) :
    before.rootStables world sc <+: after.rootStables world sc := by
  rw [Writer.rootStables, Writer.rootStables, grown.sc]
  exact ite_prefix grown.stables

theorem Grown.rootObjects (grown : Grown before after) (sc : Sc) :
    before.rootObjects world sc <+: after.rootObjects world sc := by
  rw [Writer.rootObjects, Writer.rootObjects, grown.sc]
  exact ite_prefix grown.objects

theorem Grown.rootCodes (grown : Grown before after) (sc : Sc) :
    before.rootCodes world sc <+: after.rootCodes world sc := by
  rw [Writer.rootCodes, Writer.rootCodes, grown.sc]
  exact ite_prefix grown.codes

end

theorem getElem?_of_pre {α : Type} {small big : List α} (pre : small <+: big) {i : Nat}
    {element : α} (known : small[i]? = some element) : big[i]? = some element := by
  obtain ⟨tail, rfl⟩ := pre
  have bound : i < small.length := (List.getElem?_eq_some_iff.mp known).1
  rw [getElem?_append_left bound]
  exact known

theorem getElem?_of_idxOf? {α : Type} [DecidableEq α] {list : List α} {i : Nat} {element : α}
    (found : list.idxOf? element = some i) : list[i]? = some element := by
  obtain ⟨inside, known, -⟩ := idxOf?_eq_some_iff.mp found
  exact List.getElem?_eq_some_iff.mpr ⟨inside, known⟩

theorem lt_length_of_getElem? {α : Type} {list : List α} {i : Nat} {element : α}
    (known : list[i]? = some element) : i < list.length :=
  (List.getElem?_eq_some_iff.mp known).1

/-- The interned strings are where the heap has them, and the heap starts with the
null string. -/
structure Interned (w : Writer) : Prop where
  nullString : w.stringHeap[0]? = some none
  seen : ∀ s idx, w.seenStrings.lookup s = some idx → w.stringHeap[idx]? = some (some s)

/-- A row of the dependencies table has the strings of a context. -/
def NamesSc (world : World) (w : Writer) (sc : Sc) (row : DependencyRow) : Prop :=
  (∃ i : Nat, row.handle = int4 i ∧ w.stringHeap[i]? = some (world.handle sc)) ∧
    ∃ i : Nat, row.description = int4 i ∧ w.stringHeap[i]? = some (world.description sc)

variable {world : World}

theorem NamesSc.of_grown (grown : Grown before after)
    {sc : Sc} {row : DependencyRow} (names : NamesSc world before sc row) :
    NamesSc world after sc row := by
  obtain ⟨⟨i, handle, handleKnown⟩, j, description, descriptionKnown⟩ := names
  exact ⟨⟨i, handle, getElem?_of_pre grown.heap handleKnown⟩,
    j, description, getElem?_of_pre grown.heap descriptionKnown⟩

/-- Strings are interned, every dependency has its row, the data is allocated. -/
structure Sound (world : World) (w : Writer) : Prop extends Interned w where
  names : List.Forall₂ (NamesSc world w) w.dependentScs w.dependenciesTable
  limits : ∀ segment, (w.buffers segment).limit < 2147483648
  lengths : ∀ segment, (w.buffers segment).bytes.length < 2147483648

/-- Every index that can be written fits 32 bits. -/
structure Bounded (world : World) (w : Writer) : Prop where
  heap : w.stringHeap.length ≤ 2147483648
  dependencies : w.dependentScs.length < 2147483648
  stables : ∀ sc, (w.rootStables world sc).length ≤ 2147483648
  objects : ∀ sc, (w.rootObjects world sc).length ≤ 2147483648
  codes : ∀ sc, (w.rootCodes world sc).length ≤ 2147483648

theorem Bounded.of_grown (grown : Grown before after) (bounded : Bounded world after) :
    Bounded world before where
  heap := le_trans grown.heap.length_le bounded.heap
  dependencies := lt_of_le_of_lt grown.dependencies.length_le bounded.dependencies
  stables := fun sc =>
    le_trans (grown.rootStables world sc).length_le (bounded.stables sc)
  objects := fun sc =>
    le_trans (grown.rootObjects world sc).length_le (bounded.objects sc)
  codes := fun sc => le_trans (grown.rootCodes world sc).length_le (bounded.codes sc)

/-- The reader has what the writer had, or longer ones. -/
structure Follows (world : World) (w : Writer) (r : Reader) : Prop where
  sc : r.sc = w.sc
  heap : w.stringHeap <+: r.stringHeap
  dependencies : w.dependentScs <+: r.dependentScs
  stables : ∀ sc, w.rootStables world sc <+: r.stablesOf sc
  objects : ∀ sc, w.rootObjects world sc <+: r.objectsOf sc
  codes : ∀ sc, w.rootCodes world sc <+: r.codesOf sc

theorem Follows.of_grown {r : Reader}
    (grown : Grown before after) (follows : Follows world after r) : Follows world before r where
  sc := follows.sc.trans grown.sc
  heap := grown.heap.trans follows.heap
  dependencies := grown.dependencies.trans follows.dependencies
  stables := fun sc => (grown.rootStables world sc).trans (follows.stables sc)
  objects := fun sc => (grown.rootObjects world sc).trans (follows.objects sc)
  codes := fun sc => (grown.rootCodes world sc).trans (follows.codes sc)

theorem Follows.advance {w : Writer} {r : Reader}
    (follows : Follows world w r) (amount : Nat) : Follows world w (r.advance amount) :=
  ⟨follows.sc, follows.heap, follows.dependencies, follows.stables, follows.objects, follows.codes⟩

/-- A later state in which no data was written. -/
structure Quiet (world : World) (before after : Writer) : Prop where
  grown : Extends before after
  buffers : after.buffers = before.buffers
  sound : Sound world before → Sound world after

theorem Quiet.refl (world : World) (w : Writer) : Quiet world w w := ⟨Extends.refl w, rfl, id⟩

theorem Quiet.trans (left : Quiet world first second) (right : Quiet world second third) :
    Quiet world first third where
  grown := left.grown.trans right.grown
  buffers := right.buffers.trans left.buffers
  sound := fun sound => right.sound (left.sound sound)

theorem int4_eq {i : Nat} (small : i < 2147483648) : int4 i = i := by
  rw [int4]
  apply Int.bmod_eq_of_le_mul_two <;> omega

namespace Writer

theorem addStringToHeap_frame (w : Writer) (value : Option String) :
    ∃ heap seen, (w.addStringToHeap value).1 =
      { w with stringHeap := w.stringHeap ++ heap, seenStrings := seen } := by
  cases value with
  | none => exact ⟨[], w.seenStrings, by rw [append_nil]; rfl⟩
  | some s =>
    rw [addStringToHeap]
    cases w.seenStrings.lookup s with
    | some idx => exact ⟨[], w.seenStrings, by rw [append_nil]⟩
    | none => exact ⟨[some s], (s, w.stringHeap.length) :: w.seenStrings, rfl⟩

theorem addStringToHeap_extends (w : Writer) (value : Option String) :
    Extends w (w.addStringToHeap value).1 := by
  obtain ⟨heap, seen, frame⟩ := addStringToHeap_frame w value
  rw [frame]
  exact { Extends.refl w with heap := prefix_append .. }

theorem addStringToHeap_interned {w : Writer} (interned : Interned w)
    (value : Option String) : Interned (w.addStringToHeap value).1 := by
  cases value with
  | none => exact interned
  | some s =>
    rw [addStringToHeap]
    cases known : w.seenStrings.lookup s with
    | some idx => exact interned
    | none =>
      constructor
      · exact getElem?_of_pre (prefix_append ..) interned.nullString
      intro t idx found
      rw [lookup_cons] at found
      by_cases same : t = s
      · subst same
        rw [beq_self_eq_true] at found
        cases found
        simp
      have differ : (t == s) = false := by simp [same]
      rw [differ] at found
      exact getElem?_of_pre (prefix_append ..) (interned.seen t idx found)

theorem addStringToHeap_index {w : Writer} (interned : Interned w) (value : Option String) :
    ∃ idx : Nat, (w.addStringToHeap value).2 = int4 idx ∧
      (w.addStringToHeap value).1.stringHeap[idx]? = some value := by
  cases value with
  | none => exact ⟨0, (int4_eq (by decide)).symm, interned.nullString⟩
  | some s =>
    rw [addStringToHeap]
    cases known : w.seenStrings.lookup s with
    | some idx => exact ⟨idx, rfl, interned.seen s idx known⟩
    | none => exact ⟨w.stringHeap.length, rfl, by simp⟩

theorem addStringToHeap_quiet (world : World) (w : Writer) (value : Option String) :
    Quiet world w (w.addStringToHeap value).1 := by
  have grown := addStringToHeap_extends w value
  obtain ⟨heap, seen, frame⟩ := addStringToHeap_frame w value
  constructor
  · exact grown
  · rw [frame]
  intro sound
  have interned := addStringToHeap_interned sound.toInterned value
  rw [frame] at grown interned ⊢
  exact { interned, sound with
    names := sound.names.imp fun _ _ names => names.of_grown grown.toGrown }

theorem pushDependency_frame (world : World) (w : Writer) (sc : Sc) :
    ∃ heap seen row, w.pushDependency world sc = { w with
          stringHeap := w.stringHeap ++ heap
          seenStrings := seen
          dependentScs := w.dependentScs ++ [sc]
          dependenciesTable := w.dependenciesTable ++ [row] } ∧
      (Interned w → Interned (w.pushDependency world sc) ∧
        NamesSc world (w.pushDependency world sc) sc row) := by
  let pushed : Writer := { w with dependentScs := w.dependentScs ++ [sc] }
  let handled := pushed.addStringToHeap (world.handle sc)
  let described := handled.1.addStringToHeap (world.description sc)
  obtain ⟨heap, seen, handledFrame⟩ := addStringToHeap_frame pushed (world.handle sc)
  obtain ⟨heap', seen', describedFrame⟩ := addStringToHeap_frame handled.1 (world.description sc)
  have describedEq : described.1 = { pushed with
      stringHeap := pushed.stringHeap ++ (heap ++ heap'), seenStrings := seen' } := by
    rw [← append_assoc]
    exact describedFrame.trans (handledFrame ▸ rfl)
  exists heap ++ heap', seen', ⟨handled.2, described.2⟩
  constructor
  · have row : w.pushDependency world sc = { described.1 with
        dependenciesTable := described.1.dependenciesTable ++ [⟨handled.2, described.2⟩] } :=
      rfl
    rw [row, describedEq]
  intro interned
  have internedPushed : Interned pushed := { interned with }
  have internedHandled := addStringToHeap_interned internedPushed (world.handle sc)
  have internedDescribed := addStringToHeap_interned internedHandled (world.description sc)
  obtain ⟨i, handle, handleKnown⟩ := addStringToHeap_index internedPushed (world.handle sc)
  obtain ⟨k, description, descriptionKnown⟩ :=
    addStringToHeap_index internedHandled (world.description sc)
  have later := (addStringToHeap_extends handled.1 (world.description sc)).heap
  constructor
  · exact { internedDescribed with }
  · exact ⟨⟨i, handle, getElem?_of_pre later handleKnown⟩, k, description, descriptionKnown⟩

variable {scId : Int}

theorem getScId_quiet {world : World} {w after : Writer} {sc : Sc}
    (run : w.getScId world sc = .ok (after, scId)) : Quiet world w after := by
  rw [getScId] at run
  split at run
  · cases run
    exact Quiet.refl world w
  split at run
  · cases run
    exact Quiet.refl world w
  obtain ⟨alloc, -, finish⟩ := of_bind run
  let reserved : Writer := { w with dependenciesAlloc := alloc }
  obtain ⟨heap, seen, row, frame, named⟩ := pushDependency_frame world reserved sc
  have isAfter : after = reserved.pushDependency world sc := by
    cases finish
    rfl
  rw [← isAfter] at frame named
  have grown : Extends w after := by
    rw [frame]
    exact { Extends.refl w with
      heap := prefix_append ..
      dependencies := prefix_append ..
      dependencyRows := prefix_append .. }
  constructor
  · exact grown
  · rw [frame]
  intro sound
  obtain ⟨interned, newName⟩ := named { sound with }
  have names : List.Forall₂ (NamesSc world after) (w.dependentScs ++ [sc])
      (w.dependenciesTable ++ [row]) :=
    rel_append (sound.names.imp fun _ _ names => names.of_grown grown.toGrown)
      (List.Forall₂.cons newName List.Forall₂.nil)
  rw [frame] at interned names ⊢
  exact { interned, sound with names := names }

/-- The ID of a context: 0 for the one being serialized, else its place in the
dependencies. -/
inductive DenotesSc (w : Writer) (sc : Sc) : Int → Prop
  | current : w.sc = sc → DenotesSc w sc 0
  | dependency (i : Nat) : w.dependentScs[i]? = some sc → DenotesSc w sc (i + 1)

theorem getScId_denotes {w : Writer} {sc : Sc} (bounded : after.dependentScs.length < 2147483648)
    (run : w.getScId world sc = .ok (after, scId)) : DenotesSc after sc scId := by
  rw [getScId] at run
  split at run
  · rename_i same
    cases run
    exact DenotesSc.current same
  split at run
  · rename_i i found
    cases run
    have known := getElem?_of_idxOf? found
    rw [int4_eq ((lt_length_of_getElem? known).trans bounded)]
    exact DenotesSc.dependency i known
  obtain ⟨alloc, -, finish⟩ := of_bind run
  let reserved : Writer := { w with dependenciesAlloc := alloc }
  have pushed : w.dependentScs ++ [sc] <+: after.dependentScs := by
    obtain ⟨heap, seen, row, frame, -⟩ := pushDependency_frame world reserved sc
    cases finish
    change _ <+: (reserved.pushDependency world sc).dependentScs
    rw [frame]
  have idEq : scId = int4 ((w.dependentScs.length + 1 : Nat) : Int) := by
    cases finish
    rfl
  have length := pushed.length_le
  rw [length_append, length_singleton] at length
  rw [idEq, @int4_eq (w.dependentScs.length + 1) (length.trans_lt bounded)]
  exact DenotesSc.dependency w.dependentScs.length (getElem?_of_pre pushed (by simp))

theorem claimStable_quiet (world : World) (w : Writer) (st : STable) :
    Quiet world w (w.claimStable st).1 := by
  rw [claimStable]
  split
  · exact Quiet.refl world w
  constructor
  · exact { Extends.refl w with stables := prefix_append .. }
  · rfl
  · exact fun sound => { sound with }

theorem claimObject_quiet (world : World) (w : Writer) (obj : Obj) :
    Quiet world w (w.claimObject obj).1 := by
  rw [claimObject]
  split
  · exact Quiet.refl world w
  constructor
  · exact { Extends.refl w with objects := prefix_append .. }
  · rfl
  · exact fun sound => { sound with }

section

variable {w : Writer} {sc : Sc} {idx : Nat}

theorem findStableIdx_ok {st : STable} (run : w.findStableIdx world sc st = .ok idx) :
    (w.rootStables world sc)[idx]? = some st := by
  rw [findStableIdx] at run
  split at run
  · rename_i found
    cases run
    exact getElem?_of_idxOf? found
  · cases run

theorem findObjectIdx_ok {obj : Obj} (run : w.findObjectIdx world sc obj = .ok idx) :
    (w.rootObjects world sc)[idx]? = some obj := by
  rw [findObjectIdx] at run
  split at run
  · rename_i found
    cases run
    exact getElem?_of_idxOf? found
  · cases run

theorem findCodeIdx_ok {code : Code} (run : w.findCodeIdx world sc code = .ok idx) :
    (w.rootCodes world sc)[idx]? = some code := by
  rw [findCodeIdx] at run
  split at run
  · rename_i found
    cases run
    exact getElem?_of_idxOf? found
  · cases run

end

/-- The pair leads to the STable in the root sets as they are now. -/
def DenotesStable (world : World) (w : Writer) (scId idx : Int) (st : STable) : Prop :=
  ∃ sc, DenotesSc w sc scId ∧ ∃ i : Nat, idx = i ∧ (w.rootStables world sc)[i]? = some st

def DenotesObject (world : World) (w : Writer) (scId idx : Int) (obj : Obj) : Prop :=
  ∃ sc, DenotesSc w sc scId ∧ ∃ i : Nat, idx = i ∧ (w.rootObjects world sc)[i]? = some obj

def DenotesCode (world : World) (w : Writer) (scId idx : Int) (code : Code) : Prop :=
  ∃ sc, DenotesSc w sc scId ∧ ∃ i : Nat, idx = i ∧ (w.rootCodes world sc)[i]? = some code

theorem DenotesSc.of_grown {sc : Sc}
    (grown : Grown before after) (denotes : DenotesSc before sc scId) :
    DenotesSc after sc scId := by
  cases denotes with
  | current same => exact DenotesSc.current (grown.sc.trans same)
  | dependency i known => exact DenotesSc.dependency i (getElem?_of_pre grown.dependencies known)

variable {idx : Int}

section

theorem DenotesStable.of_grown {st : STable} (grown : Grown before after)
    (denotes : DenotesStable world before scId idx st) : DenotesStable world after scId idx st := by
  obtain ⟨sc, denotesSc, i, idxEq, known⟩ := denotes
  exact ⟨sc, denotesSc.of_grown grown, i, idxEq, getElem?_of_pre (grown.rootStables world sc) known⟩

theorem DenotesObject.of_grown {obj : Obj} (grown : Grown before after)
    (denotes : DenotesObject world before scId idx obj) :
    DenotesObject world after scId idx obj := by
  obtain ⟨sc, denotesSc, i, idxEq, known⟩ := denotes
  exact ⟨sc, denotesSc.of_grown grown, i, idxEq, getElem?_of_pre (grown.rootObjects world sc) known⟩

theorem DenotesCode.of_grown {code : Code} (grown : Grown before after)
    (denotes : DenotesCode world before scId idx code) : DenotesCode world after scId idx code := by
  obtain ⟨sc, denotesSc, i, idxEq, known⟩ := denotes
  exact ⟨sc, denotesSc.of_grown grown, i, idxEq, getElem?_of_pre (grown.rootCodes world sc) known⟩

end

variable {w after : Writer}

section

theorem getStableRefInfo_spec {st : STable}
    (run : w.getStableRefInfo world st = .ok (after, scId, idx)) :
    Quiet world w after ∧ (Bounded world after → DenotesStable world after scId idx st) := by
  obtain ⟨⟨middle, id⟩, scRun, rest⟩ := of_bind run
  obtain ⟨i, findRun, finish⟩ := of_bind rest
  cases finish
  constructor
  · exact (claimStable_quiet world w st).trans (getScId_quiet scRun)
  intro bounded
  have known := findStableIdx_ok findRun
  have small := (lt_length_of_getElem? known).trans_le (bounded.stables _)
  exact ⟨_, getScId_denotes bounded.dependencies scRun, i, int4_eq small, known⟩

theorem getObjectRefInfo_spec {obj : Obj}
    (run : w.getObjectRefInfo world obj = .ok (after, scId, idx)) :
    Quiet world w after ∧ (Bounded world after → DenotesObject world after scId idx obj) := by
  obtain ⟨⟨middle, id⟩, scRun, rest⟩ := of_bind run
  obtain ⟨i, findRun, finish⟩ := of_bind rest
  cases finish
  constructor
  · exact (claimObject_quiet world w obj).trans (getScId_quiet scRun)
  intro bounded
  have known := findObjectIdx_ok findRun
  have small := (lt_length_of_getElem? known).trans_le (bounded.objects _)
  exact ⟨_, getScId_denotes bounded.dependencies scRun, i, int4_eq small, known⟩

end

section

variable {closure : Code} {info : Option (Int × Int)}

/-- What looking for the index of an outer context comes to. -/
inductive OuterIdx (world : World) (w : Writer) : Option Ctx → Writer → Int → Prop
  | nothing : OuterIdx world w none w 0
  | unlocated {ctx : Ctx} : w.scOfCtx ctx = none →
      closureToStaticCodeRef world (world.ctx ctx).currentSub false = .ok none →
      OuterIdx world w (some ctx) w 0
  | added {ctx : Ctx} {staticCode : Code} : w.scOfCtx ctx = none →
      closureToStaticCodeRef world (world.ctx ctx).currentSub false = .ok (some staticCode) →
      OuterIdx world w (some ctx)
        { w with
          contextsList := w.contextsList ++ [ctx]
          scOfCtx := Function.update w.scOfCtx ctx (some w.sc) } (int4 w.contextsList.length + 1)
  | known {ctx : Ctx} {sc : Sc} {i : Nat} : w.scOfCtx ctx = some sc →
      w.contextsList[i]? = some ctx → OuterIdx world w (some ctx) w (int4 i + 1)

theorem OuterIdx.of_some {ctx : Ctx}
    (run : w.getSerializedContextIdx world ctx = .ok (after, idx)) :
    OuterIdx world w (some ctx) after idx := by
  rw [getSerializedContextIdx] at run
  split at run
  · rename_i fresh
    obtain ⟨staticCode, static, rest⟩ := of_bind run
    cases staticCode with
    | none =>
      cases rest
      exact .unlocated fresh static
    | some staticCode =>
      cases rest
      exact .added fresh static
  rename_i located
  split at run
  · cases run
  split at run
  · rename_i found
    cases run
    exact .known located (getElem?_of_idxOf? found)
  · cases run

theorem OuterIdx.of_closure
    (run : w.getSerializedOuterContextIdx world closure = .ok (after, idx)) : OuterIdx world w
      (if (world.code closure).compilerStub then none else (world.code closure).outerCtx)
      after idx := by
  rw [getSerializedOuterContextIdx] at run
  split at run
  · rename_i stub
    cases run
    rw [if_pos stub]
    exact .nothing
  rename_i notStub
  rw [if_neg notStub]
  split at run
  · rename_i isOuter
    cases run
    rw [isOuter]
    exact .nothing
  rename_i isOuter
  rw [isOuter]
  exact .of_some run

theorem OuterIdx.quiet {ctx : Option Ctx}
    (outer : OuterIdx world w ctx after idx) : Quiet world w after := by
  cases outer with
  | nothing | unlocated | known => exact Quiet.refl world w
  | added =>
    exact ⟨{ Extends.refl w with contexts := prefix_append .. }, rfl, fun sound => { sound with }⟩

theorem getCodeObjectInfo_cases (run : w.getCodeObjectInfo world closure = .ok (after, info)) :
    (world.code closure).codeObject = none ∧ after = w ∧ info = none ∨
      ∃ obj scId idx, (world.code closure).codeObject = some obj ∧
        w.getObjectRefInfo world obj = .ok (after, scId, idx) ∧ info = some (scId, idx) := by
  rw [getCodeObjectInfo] at run
  split at run
  · rename_i noObject
    cases run
    exact .inl ⟨noObject, rfl, rfl⟩
  rename_i obj isObject
  obtain ⟨⟨middle, scId, idx⟩, infoRun, finish⟩ := of_bind run
  cases finish
  exact .inr ⟨obj, scId, idx, isObject, infoRun, rfl⟩

theorem getCodeObjectInfo_quiet
    (run : w.getCodeObjectInfo world closure = .ok (after, info)) : Quiet world w after := by
  rcases getCodeObjectInfo_cases run with ⟨-, rfl, -⟩ | ⟨obj, scId, idx, -, infoRun, -⟩
  · exact Quiet.refl world after
  · exact (getObjectRefInfo_spec infoRun).1

theorem serializeClosure_quiet
    (run : w.serializeClosure world closure = .ok after) : Quiet world w after := by
  obtain ⟨staticCode, -, rest⟩ := of_bind run
  cases staticCode with
  | none => cases rest
  | some staticCode =>
    obtain ⟨alloc, -, rest⟩ := of_bind rest
    obtain ⟨⟨outer, contextIdx⟩, outerRun, rest⟩ := of_bind rest
    obtain ⟨staticSc, -, rest⟩ := of_bind rest
    obtain ⟨⟨named, staticScId⟩, scRun, rest⟩ := of_bind rest
    obtain ⟨staticIdx, -, rest⟩ := of_bind rest
    obtain ⟨⟨claimed, codeObject⟩, objectRun, finish⟩ := of_bind rest
    cases finish
    have reserved : Quiet world w { w with closuresAlloc := alloc } :=
      ⟨{ Extends.refl w with }, rfl, fun sound => { sound with }⟩
    have before := ((reserved.trans (OuterIdx.of_closure outerRun).quiet).trans
      (getScId_quiet scRun)).trans (getCodeObjectInfo_quiet objectRun)
    apply before.trans
    constructor
    · exact { Extends.refl claimed with
        codes := prefix_append ..
        closureRows := prefix_append .. }
    · rfl
    · exact fun sound => { sound with }

theorem codeDiscriminator_quiet {code : Code} {discrim : Int}
    (run : w.codeDiscriminator world code = .ok (after, discrim)) :
    Quiet world w after ∧ (discrim = 11 ∨ discrim = 12) := by
  rw [codeDiscriminator] at run
  split at run
  · cases run
    apply And.intro (Quiet.refl world w)
    split
    · exact .inl rfl
    · exact .inr rfl
  · obtain ⟨middle, closureRun, finish⟩ := of_bind run
    cases finish
    exact ⟨serializeClosure_quiet closureRun, .inr rfl⟩

end

end Writer

end RakudoStar.Serialization
