import RakudoStar.Parrot.HashTransfer

/-!
# Runs over many tables

Programs work on any number of tables, and on finite maps, where a transfer may take the entries
in any order. A run keeps every table equal to its map as long as no step reuses buckets left
dangling.
-/

namespace RakudoStar.Parrot

open Foundation List Function

variable {W : Type}

inductive Op (W : Type) where
  | put (table : Nat) (key value : W)
  | get (table : Nat) (key : W)
  | «exists» (table : Nat) (key : W)
  | delete (table : Nat) (key : W)
  | update (table other : Nat)
  | clone (source dest : Nat) (deep : Bool)
  deriving DecidableEq, Repr

inductive Answer (W : Type) where
  | done
  | value (word : W)
  | flag (present : Bool)
  | thrown (e : Exception)
  deriving DecidableEq, Repr

def Answer.ofOutcome : Except Exception Unit → Answer W
  | .ok () => .done
  | .error e => .thrown e

/-- One operation; no result means a pointer outside the buckets of a table. -/
def step [DecidableEq W] (rt : Runtime W) (tables : Nat → Hash W) :
    Op W → Option ((Nat → Hash W) × Answer W)
  | .put t key value =>
    (hashPut rt (tables t) key value).map (fun result => (Function.update tables t result.1, .done))
  | .get t key => (hashGet rt (tables t) key).map (fun word => (tables, .value word))
  | .exists t key => (hashExists rt (tables t) key).map (fun present => (tables, .flag present))
  | .delete t key =>
    (hashDelete rt (tables t) key).map (fun after => (Function.update tables t after, .done))
  | .update t other =>
    (hashUpdate rt (tables t) (tables other)).map
      (fun result => (Function.update tables t result.1, .ofOutcome result.2))
  | .clone source dest deep =>
    (hashClonePrunable rt (tables source) (tables dest) deep).map
      (fun result => (Function.update tables dest result.1, .ofOutcome result.2))

def run [DecidableEq W] (rt : Runtime W) :
    (Nat → Hash W) → List (Op W) → Option ((Nat → Hash W) × List (Answer W))
  | tables, [] => some (tables, [])
  | tables, op :: ops => do
    let (middle, answer) ← step rt tables op
    let (after, answers) ← run rt middle ops
    some (after, answer :: answers)

/-- One finite map for each table, over the comparison of its key type. -/
abbrev Maps [DecidableEq W] (rt : Runtime W) (types : Nat → TableType) : Type :=
  (t : Nat) → FiniteMap (hashCompare rt (types t).keyType) W

variable {rt : Runtime W} {types : Nat → TableType}

section

variable [DecidableEq W]

inductive MapStep (rt : Runtime W) (types : Nat → TableType) :
    Maps rt types → Op W → Answer W → Maps rt types → Prop
  | put (maps : Maps rt types) (t : Nat) (key value : W) :
      MapStep rt types maps (.put t key value) .done
        (Function.update maps t ((maps t).insert key value))
  | get (maps : Maps rt types) (t : Nat) (key : W) :
      MapStep rt types maps (.get t key) (.value (((maps t).lookup key).getD rt.null)) maps
  | «exists» (maps : Maps rt types) (t : Nat) (key : W) :
      MapStep rt types maps (.exists t key) (.flag ((maps t).lookup key).isSome) maps
  | delete (maps : Maps rt types) (t : Nat) (key : W) : MapStep rt types maps (.delete t key) .done
        (Function.update maps t ((maps t).erase key))
  | update (maps : Maps rt types) (t other : Nat) (order : List (W × W)) :
      order.Perm (maps other).entries → MapStep rt types maps (.update t other)
        (.ofOutcome ((maps t).absorb (convertEntry rt (types t) (types other)) order).2)
        (Function.update maps t ((maps t).absorb (convertEntry rt (types t) (types other)) order).1)
  | clone (maps : Maps rt types) (source dest : Nat) (deep : Bool) (order : List (W × W)) :
      order.Perm (maps source).entries → MapStep rt types maps (.clone source dest deep)
        (.ofOutcome ((FiniteMap.empty : FiniteMap (hashCompare rt (types dest).keyType) W).absorb
          (cloneEntry rt (types source).entryType deep) order).2)
        (Function.update maps dest
          (FiniteMap.empty.absorb (cloneEntry rt (types source).entryType deep) order).1)

inductive MapRun (rt : Runtime W) (types : Nat → TableType) :
    Maps rt types → List (Op W) → List (Answer W) → Maps rt types → Prop
  | nil (maps : Maps rt types) : MapRun rt types maps [] [] maps
  | cons {maps middle after : Maps rt types} {op : Op W} {ops : List (Op W)}
      {answer : Answer W} {answers : List (Answer W)} :
      MapStep rt types maps op answer middle → MapRun rt types middle ops answers after →
      MapRun rt types maps (op :: ops) (answer :: answers) after

end

section

variable [DecidableEq W] {tables : Nat → Hash W} {maps : Maps rt types}

/-- No update into an empty table with buckets, no clone into one, no `NULL` key cloned. -/
def Meets (rt : Runtime W) (tables : Nat → Hash W) : Op W → Prop
  | .put t key _ => (tables t).keyType.indexed = false → key ≠ rt.null
  | .get _ _ => True
  | .exists _ _ => True
  | .delete _ _ => True
  | .update t other =>
    t ≠ other ∧ ((tables other).entries ≠ 0 → (tables t).type = (tables other).type →
      ¬ Emptied (tables t)) ∧
    ∀ cells, hashIterate rt (tables other) = some cells → ∀ cell ∈ cells, ∀ key,
      convertKey rt (tables t).keyType (tables other).keyType
          ((tables other).keyOf cell) = .ok key → (tables t).keyType.indexed = false → key ≠ rt.null
  | .clone source dest _ =>
    source ≠ dest ∧ (tables dest).allocated = false ∧
    (tables dest).keyType = (tables source).keyType ∧
    ∀ cells, hashIterate rt (tables source) = some cells →
      ∀ cell ∈ cells, (tables source).keyOf cell ≠ rt.null

/-- Every step of the run is sound in the state it starts from. -/
def RunMeets (rt : Runtime W) : (Nat → Hash W) → List (Op W) → Prop
  | _, [] => True
  | tables, op :: ops =>
    Meets rt tables op ∧
      ∀ middle answer, step rt tables op = some (middle, answer) → RunMeets rt middle ops

/-- Every table has its types and stores its map. -/
def Represents (rt : Runtime W) (types : Nat → TableType) (tables : Nat → Hash W)
    (maps : Maps rt types) : Prop :=
  ∀ t, Stores rt (types t) (tables t) (maps t)

theorem Represents.update (represents : Represents rt types tables maps) {t : Nat} {after : Hash W}
    {map : FiniteMap (hashCompare rt (types t).keyType) W}
    (stores : Stores rt (types t) after map) :
    Represents rt types (Function.update tables t after) (Function.update maps t map) := by
  intro other
  by_cases same : other = t
  · subst same
    rw [update_self, update_self]
    exact stores
  · rw [update_of_ne same, update_of_ne same]
    exact represents other

theorem step_represents (lawful : ∀ t, LawfulKeys rt (types t).keyType)
    (represents : Represents rt types tables maps) {op : Op W} (meets : Meets rt tables op) :
    ∃ after answer mapsAfter, step rt tables op = some (after, answer) ∧
      MapStep rt types maps op answer mapsAfter ∧ Represents rt types after mapsAfter := by
  cases op with
  | put t key value =>
    have stores := represents t
    obtain ⟨after, bucket, runPut, storesAfter⟩ := stores.put (lawful t) value
      (fun linear => meets (stores.keyType ▸ linear))
    refine ⟨_, _, _, ?_, MapStep.put maps t key value, represents.update storesAfter⟩
    rw [step, runPut]
    rfl
  | get t key =>
    have stores := represents t
    have answer := hashGet_spec (stores.keyType ▸ lawful t) stores.holds key
    rw [stores.keyType] at answer
    refine ⟨_, _, _, ?_, MapStep.get maps t key, represents⟩
    rw [step, answer]
    rfl
  | «exists» t key =>
    have stores := represents t
    have answer := hashExists_spec (stores.keyType ▸ lawful t) stores.holds key
    rw [stores.keyType] at answer
    refine ⟨_, _, _, ?_, MapStep.exists maps t key, represents⟩
    rw [step, answer]
    rfl
  | delete t key =>
    have stores := represents t
    obtain ⟨after, runDelete, holds, keyType, entryType⟩ :=
      hashDelete_spec (stores.keyType ▸ lawful t) stores.holds key
    rw [stores.keyType] at holds
    have storesAfter : Stores rt (types t) after ((maps t).erase key) := by
      refine ⟨?_, holds⟩
      rw [← stores.type, Hash.type, keyType, entryType, Hash.type]
    refine ⟨_, _, _, ?_, MapStep.delete maps t key, represents.update storesAfter⟩
    rw [step, runDelete]
    rfl
  | update t other =>
    obtain ⟨-, notEmptied, usable⟩ := meets
    have stores := represents t
    have otherStores := represents other
    rw [stores.keyType, otherStores.keyType] at usable
    obtain ⟨after, order, perm, runUpdate, storesAfter⟩ :=
      hashUpdate_spec (lawful t) stores otherStores
        (fun notEmpty sameType => notEmptied notEmpty
          (stores.type.trans (sameType.trans otherStores.type.symm))) usable
    refine ⟨_, _, _, ?_, MapStep.update maps t other order perm, represents.update storesAfter⟩
    rw [step, runUpdate]
    rfl
  | clone source dest deep =>
    obtain ⟨-, vacant, sameKeys, notNull⟩ := meets
    have stores := represents source
    have destStores := represents dest
    rw [stores.keyType, destStores.keyType] at sameKeys
    obtain ⟨after, order, perm, runClone, storesAfter⟩ :=
      hashClonePrunable_spec (lawful source) stores destStores sameKeys vacant notNull deep
    refine ⟨_, _, _, ?_, MapStep.clone maps source dest deep order perm,
      represents.update storesAfter⟩
    rw [step, runClone]
    rfl

/-- A run of sound steps goes through and is a run of the maps. -/
theorem run_represents (lawful : ∀ t, LawfulKeys rt (types t).keyType) (ops : List (Op W)) :
    ∀ {tables : Nat → Hash W} {maps : Maps rt types},
      Represents rt types tables maps → RunMeets rt tables ops →
      ∃ after answers mapsAfter, run rt tables ops = some (after, answers) ∧
        MapRun rt types maps ops answers mapsAfter ∧ Represents rt types after mapsAfter := by
  induction ops with
  | nil => exact fun represents _ => ⟨_, [], _, rfl, MapRun.nil _, represents⟩
  | cons op ops ih =>
    intro tables maps represents meets
    obtain ⟨middle, answer, mapsMiddle, first, mapFirst, representsMiddle⟩ :=
      step_represents lawful represents meets.1
    obtain ⟨after, answers, mapsAfter, rest, mapRest, representsAfter⟩ :=
      ih representsMiddle (meets.2 middle answer first)
    refine ⟨after, answer :: answers, mapsAfter, ?_, MapRun.cons mapFirst mapRest, representsAfter⟩
    simp only [run, first, Option.bind_eq_bind, Option.bind_some, rest]

end

/-- The buckets met on the way from a link. -/
inductive Reachable (h : Hash W) : Option Pointer → Pointer → Prop
  | here (p : Pointer) : Reachable h (some p) p
  | there (p : Pointer) {q : Pointer} : Reachable h (h.nextOf p.cell) q → Reachable h (some p) q

theorem reachable_iff {h : Hash W} {start : Option Pointer} {cells : List Nat}
    (segment : Segment h.ref h.nextOf start cells none) (p : Pointer) :
    Reachable h start p ↔ ∃ cell ∈ cells, p = h.ref cell := by
  induction cells generalizing start with
  | nil =>
    rw [segment]
    constructor
    · nofun
    · rintro ⟨cell, mem, -⟩
      cases mem
  | cons cell cells ih =>
    rcases segment with ⟨rfl, rest⟩
    constructor
    · intro reachable
      cases reachable with
      | here => exact ⟨cell, mem_cons_self .., rfl⟩
      | there _ onward =>
        obtain ⟨other, mem, pEq⟩ := (ih rest).mp onward
        exact ⟨other, mem_cons_of_mem _ mem, pEq⟩
    rintro ⟨other, mem, rfl⟩
    rcases mem_cons.mp mem with rfl | inRest
    · exact Reachable.here _
    · apply Reachable.there
      exact (ih rest).mpr ⟨other, inRest, rfl⟩

section

variable [DecidableEq W] {type : TableType} {h : Hash W}
  {map : FiniteMap (hashCompare rt type.keyType) W}

/-- What the free list and the chains reach are buckets, each reached once. -/
structure MemorySound (rt : Runtime W) (h : Hash W) : Prop where
  inside : ∀ p, Reachable h h.freeList p ∨ (∃ i ≤ h.mask, Reachable h (h.index i) p) →
    p.block = h.block ∧ p.cell ≤ h.mask
  once : ∀ cell ≤ h.mask,
    (Reachable h h.freeList (h.ref cell) ∧ ∀ i ≤ h.mask, ¬ Reachable h (h.index i) (h.ref cell)) ∨
    (¬ Reachable h h.freeList (h.ref cell) ∧ ∃ i ≤ h.mask, Reachable h (h.index i) (h.ref cell) ∧
        ∀ j ≤ h.mask, Reachable h (h.index j) (h.ref cell) → j = i)
  placed : ∀ i ≤ h.mask, ∀ p, Reachable h (h.index i) p →
    rt.keyHash h.keyType (h.keyOf p.cell) &&& h.mask = i

theorem Layout.memorySound {free live : List Nat} (layout : Layout rt h free live) :
    MemorySound rt h := by
  have inFree := reachable_iff layout.freeSegment
  have inChain : ∀ i ≤ h.mask, ∀ p, Reachable h (h.index i) p ↔
      ∃ cell ∈ live, h.location rt cell = i ∧ p = h.ref cell := by
    intro i bound p
    obtain ⟨chain, segment, perm⟩ := layout.chains i bound
    rw [reachable_iff segment]
    constructor
    · rintro ⟨cell, mem, pEq⟩
      obtain ⟨inLive, located⟩ := Layout.chain_mem perm |>.mp mem
      exact ⟨cell, inLive, located, pEq⟩
    · rintro ⟨cell, inLive, located, pEq⟩
      exact ⟨cell, (Layout.chain_mem perm).mpr ⟨inLive, located⟩, pEq⟩
  have refInjective : ∀ {first second : Nat}, h.ref first = h.ref second → first = second :=
    fun same => congrArg Pointer.cell same
  constructor
  · rintro p (reached | ⟨i, bound, reached⟩)
    · obtain ⟨cell, mem, rfl⟩ := (inFree p).mp reached
      exact ⟨rfl, layout.free_le mem⟩
    · obtain ⟨cell, mem, -, rfl⟩ := (inChain i bound p).mp reached
      exact ⟨rfl, layout.live_le mem⟩
  · intro cell bound
    have inRange : cell ∈ range (h.mask + 1) := mem_range.mpr (by omega)
    rcases mem_append.mp (layout.cells.mem_iff.mpr inRange) with isFree | isLive
    · left
      constructor
      · exact (inFree _).mpr ⟨cell, isFree, rfl⟩
      intro i below reached
      obtain ⟨other, mem, -, same⟩ := (inChain i below _).mp reached
      exact layout.free_not_live isFree (refInjective same ▸ mem)
    right
    constructor
    · intro reached
      obtain ⟨other, mem, same⟩ := (inFree _).mp reached
      exact layout.free_not_live (refInjective same ▸ mem) isLive
    apply Exists.intro (h.location rt cell)
    apply And.intro (Layout.location_le cell)
    constructor
    · exact (inChain _ (Layout.location_le cell) _).mpr ⟨cell, isLive, rfl, rfl⟩
    intro j below reached
    obtain ⟨other, -, located, same⟩ := (inChain j below _).mp reached
    rw [refInjective same]
    exact located.symm
  · intro i bound p reached
    obtain ⟨cell, -, located, rfl⟩ := (inChain i bound p).mp reached
    exact located

/-- Everything a table of the given key type promises about the finite map. -/
structure Correct (rt : Runtime W) (type : TableType) (h : Hash W)
    (map : FiniteMap (hashCompare rt type.keyType) W) : Prop where
  size : h.size = map.card
  get : ∀ key, hashGet rt h key = some ((map.lookup key).getD rt.null)
  «exists» : ∀ key, hashExists rt h key = some (map.lookup key).isSome
  iterate : ∃ cells, hashIterate rt h = some cells ∧ Visits h map.entries cells
  indexed : ∃ cells, iterateIndexed h = some cells ∧ Visits h map.entries cells
  linear : type.keyType.indexed = false →
    ∃ cells, iterateLinear rt h (h.mask + 1) 0 0 = some cells ∧ Visits h map.entries cells
  memory : h.allocated = true → MemorySound rt h

theorem Stores.correct (lawful : LawfulKeys rt type.keyType)
    (stores : Stores rt type h map) : Correct rt type h map := by
  have lawfulHere : LawfulKeys rt h.keyType := stores.keyType ▸ lawful
  constructor
  · exact stores.holds.size
  · intro key
    have answer := hashGet_spec lawfulHere stores.holds key
    rw [stores.keyType] at answer
    exact answer
  · intro key
    have answer := hashExists_spec lawfulHere stores.holds key
    rw [stores.keyType] at answer
    exact answer
  · exact hashIterate_spec stores.holds
  · exact iterateIndexed_spec stores.holds
  · intro linear
    exact iterateLinear_spec stores.holds (stores.keyType ▸ linear)
  · intro allocated
    rcases stores.holds with ⟨vacant, -⟩ | ⟨free, live, layout, -⟩
    · exact absurd allocated (by simp [vacant.allocated])
    · exact layout.memorySound

theorem Stores.expand (stores : Stores rt type h map) (allocated : h.allocated = true)
    (full : h.freeList = none) :
    ∃ after, expandHash rt h = some after ∧ Stores rt type after map := by
  rcases stores.holds with ⟨vacant, -⟩ | ⟨free, live, layout, same⟩
  · exact absurd allocated (by simp [vacant.allocated])
  have noFree := layout.freeList_eq_none_iff.mp full
  subst noFree
  obtain ⟨after, newFree, runExpand, afterLayout, -, keyType, entryType, entries⟩ :=
    expandHash_spec layout
  refine ⟨after, runExpand, ⟨?_, .inr ⟨newFree, live, afterLayout, ?_⟩⟩⟩
  · rw [← stores.type, Hash.type, keyType, entryType, Hash.type]
  · rw [map_congr_left entries]
    exact same

end

section

variable [DecidableEq W]

/-- Every table was just created, with or without a size. -/
def Fresh (rt : Runtime W) (types : Nat → TableType) (tables : Nat → Hash W) : Prop :=
  ∀ t, tables t = hashCreate rt (types t).entryType (types t).keyType ∨
    ∃ size, tables t = hashCreateSized rt (types t).entryType (types t).keyType size

theorem Fresh.represents {tables : Nat → Hash W} (fresh : Fresh rt types tables) :
    Represents rt types tables (fun _ => FiniteMap.empty) := by
  intro t
  have vacant : Vacant (hashCreate rt (types t).entryType (types t).keyType) := ⟨rfl, rfl, rfl⟩
  rcases fresh t with created | ⟨size, created⟩
  · rw [created]
    exact ⟨rfl, .inl ⟨vacant, rfl⟩⟩
  have stores : Stores rt (types t)
      (hashCreate rt (types t).entryType (types t).keyType) FiniteMap.empty :=
    ⟨rfl, .inl ⟨vacant, rfl⟩⟩
  rw [created]
  exact (stores.allocate rfl size).1

/-- In every run whose steps are sound the tables are the finite maps that the same
operations build: no pointer is followed out of a table, the answers agree, and
in the state reached every table promises everything about its map, also after
an expansion. -/
theorem tables_are_maps (lawful : ∀ t, LawfulKeys rt (types t).keyType)
    {tables : Nat → Hash W} (fresh : Fresh rt types tables) (ops : List (Op W))
    (meets : RunMeets rt tables ops) :
    ∃ after answers maps, run rt tables ops = some (after, answers) ∧
      MapRun rt types (fun _ => FiniteMap.empty) ops answers maps ∧
      ∀ t, Correct rt (types t) (after t) (maps t) ∧
        ((after t).allocated = true → (after t).freeList = none →
          ∃ expanded, expandHash rt (after t) = some expanded ∧
            Correct rt (types t) expanded (maps t)) := by
  obtain ⟨after, answers, maps, runs, mapRun, represents⟩ :=
    run_represents lawful ops fresh.represents meets
  refine ⟨after, answers, maps, runs, mapRun, fun t => ⟨?_, ?_⟩⟩
  · exact (represents t).correct (lawful t)
  intro allocated full
  obtain ⟨expanded, expansion, stores⟩ := (represents t).expand allocated full
  exact ⟨expanded, expansion, stores.correct (lawful t)⟩

theorem runMeets_cons {tables middle : Nat → Hash W} {op : Op W} {ops : List (Op W)}
    {answer : Answer W} (meets : Meets rt tables op)
    (stepEq : step rt tables op = some (middle, answer)) (rest : RunMeets rt middle ops) :
    RunMeets rt tables (op :: ops) := by
  apply And.intro meets
  intro other otherAnswer otherEq
  rw [stepEq] at otherEq
  cases otherEq
  exact rest

end

/-- Words that are integers, each its own hash. -/
def intRuntime : Runtime Nat where
  null := 0
  pmcNull := 0
  keyHash := fun _ key => key
  keyEqual := fun _ a b => decide (a = b)
  encoding := fun _ => 0
  strBytes := fun word => [word]
  strToInt := .ok
  strFromInt := .ok
  pmcGetInteger := .ok
  pmcGetString := .ok
  boxInteger := .ok
  boxString := .ok
  pmcClone := .ok

def intTables : Nat → Hash Nat := fun _ => hashCreate intRuntime .intval .int

theorem intRuntime_lawful : LawfulKeys intRuntime .int := by
  have compare : ∀ {a b : Nat}, hashCompare intRuntime .int a b = true ↔ a = b := by
    intro a b
    simp [hashCompare]
  constructor
  · constructor
    · exact fun key => compare.mpr rfl
    · exact fun same => compare.mpr (compare.mp same).symm
    · exact fun left right => compare.mpr ((compare.mp left).trans (compare.mp right))
  · exact fun same => compare.mp same
  · exact fun isString => KeyType.noConfusion isString

theorem tables_are_maps_int : ∃ after answers maps,
      run intRuntime intTables [.put 0 1 10, .update 1 0, .get 1 1] = some (after, answers) ∧
      MapRun intRuntime (fun _ => ⟨.int, .intval⟩) (fun _ => FiniteMap.empty)
        [.put 0 1 10, .update 1 0, .get 1 1] answers maps ∧
      ∀ t, Correct intRuntime ⟨.int, .intval⟩ (after t) (maps t) ∧
        ((after t).allocated = true → (after t).freeList = none →
          ∃ expanded, expandHash intRuntime (after t) = some expanded ∧
            Correct intRuntime ⟨.int, .intval⟩ expanded (maps t)) := by
  apply tables_are_maps (fun _ => intRuntime_lawful) (fun _ => .inl rfl)
  refine runMeets_cons ?_ rfl (runMeets_cons ?_ rfl ⟨trivial, fun _ _ _ => trivial⟩)
  · intro linear
    exact absurd linear (by decide)
  refine ⟨by decide, fun _ _ => ?_, fun _ _ _ _ _ _ linear => absurd linear (by decide)⟩
  rintro ⟨allocated, -⟩
  exact absurd allocated (by decide)

def updateEmptied : List (Op Nat) :=
  [.put 0 1 10, .delete 0 1, .put 1 1 10, .put 1 2 20, .update 0 1]

/-- After the update the free list of the table leads into the block that was freed,
and the next insertion follows it. -/
theorem update_emptied_leaves_stale_free_list :
    ∃ after answers, run intRuntime intTables updateEmptied = some (after, answers) ∧
      ¬ MemorySound intRuntime (after 0) ∧ step intRuntime after (.put 0 3 30) = none := by
  refine ⟨_, _, rfl, ?_, rfl⟩
  intro sound
  have inBlock := sound.inside ⟨1, 0⟩ (.inl (Reachable.here _))
  exact absurd inBlock.1 (by decide)

end RakudoStar.Parrot
