import Mathlib.Data.List.Nodup
import Mathlib.Logic.Function.Basic

/-!
# The fixed-size allocator

`fixed_allocator.c`: a table of pools by size class. A pool hands out slots of
its arenas, from a free list threaded through the freed blocks or from a bump
pointer into the newest arena.
-/

namespace RakudoStar.Gc

/-- `sizeof (void *)` of a 64-bit build. -/
def pointerSize : Nat := 8

/-- `sizeof (Pool_Allocator_Arena)`, two pointers. -/
def arenaHeader : Nat := 16

def gcFixedSizePoolSize : Nat := 4096

/-- A block handed out: its address and the size asked for. -/
abbrev Block := Nat × Nat

/-- `Pool_Allocator`; 0 is `NULL`, `num_arenas` the length of `arena_bounds`. -/
structure PoolAllocator where
  objectSize : Nat
  objectsPerAlloc : Nat
  numFreeObjects : Nat
  freeList : Nat
  newfree : Nat
  newlast : Nat
  loArenaPtr : Nat
  hiArenaPtr : Nat
  arenaBounds : List (Nat × Nat)

/-- The memory, as the pointer at each address, and the pools of a
`Fixed_Allocator`. -/
structure Heap where
  memory : Nat → Nat
  pools : List (Option PoolAllocator)

/-- The entry of the table of pools, null where there is none. -/
def Heap.pool (heap : Heap) (index : Nat) : Option PoolAllocator :=
  heap.pools[index]?.join

def Heap.setPool (heap : Heap) (index : Nat) (pool : PoolAllocator) : Heap :=
  { heap with pools := heap.pools.set index (some pool) }

def poolNew (objectSize : Nat) : PoolAllocator :=
  let attribSize := if objectSize < pointerSize then pointerSize else objectSize
  let numObjsRaw := (gcFixedSizePoolSize - arenaHeader) / attribSize
  { objectSize := attribSize
    objectsPerAlloc := if numObjsRaw = 0 then 1 else numObjsRaw
    numFreeObjects := 0
    freeList := 0
    newfree := 0
    newlast := 0
    loArenaPtr := 18446744073709551615
    hiArenaPtr := 0
    arenaBounds := [] }

def arenaSize (pool : PoolAllocator) : Nat :=
  let totalSize := arenaHeader + pool.objectSize * pool.objectsPerAlloc
  if totalSize < gcFixedSizePoolSize then gcFixedSizePoolSize else totalSize

/-- Link a block into the free list: its first word becomes the old head. -/
def poolFree (memory : Nat → Nat) (pool : PoolAllocator) (data : Nat) :
    (Nat → Nat) × PoolAllocator :=
  (Function.update memory data pool.freeList,
    { pool with freeList := data, numFreeObjects := pool.numFreeObjects + 1 })

def getFreeListItem (memory : Nat → Nat) (pool : PoolAllocator) : Nat × PoolAllocator :=
  (pool.freeList, { pool with
      freeList := memory pool.freeList
      numFreeObjects := pool.numFreeObjects - 1 })

def getNewfreeListItem (pool : PoolAllocator) : Nat × PoolAllocator :=
  (pool.newfree, { pool with
      newfree := pool.newfree + pool.objectSize
      numFreeObjects := pool.numFreeObjects - 1 })

/-- `allocate_new_pool_arena`, once the system has delivered the arena. -/
def allocateNewPoolArena (pool : PoolAllocator) (newArena : Nat) : PoolAllocator :=
  let next := newArena + arenaHeader
  let last := next + pool.objectSize * pool.objectsPerAlloc
  { pool with
    newfree := next
    newlast := last
    numFreeObjects := pool.numFreeObjects + pool.objectsPerAlloc
    loArenaPtr := if next < pool.loArenaPtr then next else pool.loArenaPtr
    hiArenaPtr := if pool.hiArenaPtr < last then last else pool.hiArenaPtr
    arenaBounds := pool.arenaBounds ++ [(next, last)] }

def poolIsOwned (pool : PoolAllocator) (ptr : Nat) : Bool :=
  if pool.loArenaPtr ≤ ptr ∧ ptr < pool.hiArenaPtr then
    pool.arenaBounds.any fun bounds =>
      decide (bounds.1 ≤ ptr ∧ ptr < bounds.2 ∧ (ptr - bounds.1) % pool.objectSize = 0)
  else
    false

/-- The index of the pool that serves a size. -/
def sizeClass (size : Nat) : Nat := (size - 1) / pointerSize

/-- `Parrot_gc_fixed_allocator_free`; there is no result where the pool is null. -/
def fixedAllocatorFree (heap : Heap) (block : Block) : Option Heap := do
  let pool ← heap.pool (sizeClass block.2)
  let freed := poolFree heap.memory pool block.1
  some (Heap.setPool { heap with memory := freed.1 } (sizeClass block.2) freed.2)

/-- `Parrot_gc_maybe_mark_and_sweep`, as the blocks it frees in turn. -/
def collect (heap : Heap) (garbage : List Block) : Option Heap :=
  garbage.foldlM fixedAllocatorFree heap

/-- The outcome of an allocation, and the pool as it takes a new arena. -/
structure Allocated where
  heap : Heap
  item : Nat
  extended : Option PoolAllocator

/-- `pool_allocate`. A new arena is taken after a garbage collection, whatever
that frees. -/
def poolAllocate (heap : Heap) (index : Nat) (garbage : List Block) (newArena : Nat) :
    Option Allocated := do
  let pool ← heap.pool index
  if pool.freeList ≠ 0 then
    let got := getFreeListItem heap.memory pool
    some ⟨heap.setPool index got.2, got.1, none⟩
  else if pool.newlast ≤ pool.newfree then
    let heap ← collect heap garbage
    let pool ← heap.pool index
    let got := getNewfreeListItem (allocateNewPoolArena pool newArena)
    some ⟨heap.setPool index got.2, got.1, some pool⟩
  else
    let got := getNewfreeListItem pool
    some ⟨heap.setPool index got.2, got.1, none⟩

/-- The table of pools with the pool of an index, made or grown as needed. -/
def openPool (pools : List (Option PoolAllocator)) (index : Nat) : List (Option PoolAllocator) :=
  let fresh := some (poolNew ((index + 1) * pointerSize))
  if index < pools.length then
    match pools[index]? with
    | some none => pools.set index fresh
    | _ => pools
  else
    pools ++ List.replicate (index - pools.length) none ++ [fresh]

def fixedAllocatorAllocate (heap : Heap) (size : Nat) (garbage : List Block) (newArena : Nat) :
    Option Allocated :=
  poolAllocate { heap with pools := openPool heap.pools (sizeClass size) } (sizeClass size)
    garbage newArena

/-- The heap and the blocks the program holds. -/
structure State where
  heap : Heap
  live : List Block

inductive Event
  | allocate (size item : Nat) (garbage : List Block) (extended : Option PoolAllocator)
  | free (block : Block)
  | write

/-- The arena that the system delivers is apart from all others. -/
def Delivered (heap : Heap) (pool : PoolAllocator) (newArena : Nat) : Prop :=
  ∀ index other, heap.pool index = some other → ∀ bounds ∈ other.arenaBounds,
    newArena + arenaSize pool ≤ bounds.1 - arenaHeader ∨
      bounds.1 - arenaHeader + arenaSize other ≤ newArena

/-- A call of the allocator, or a write of the program; blocks are freed while live. -/
inductive Step (s : State) : Event → State → Prop
  | allocate (size newArena : Nat) (garbage rest : List Block) (got : Allocated)
      (asked : 0 < size)
      (runs : fixedAllocatorAllocate s.heap size garbage newArena = some got)
      (delivered : ∀ pool, got.extended = some pool → Delivered s.heap pool newArena)
      (idle : got.extended = none → garbage = [])
      (freed : s.live.Perm (garbage ++ rest)) :
      Step s (.allocate size got.item garbage got.extended) ⟨got.heap, (got.item, size) :: rest⟩
  | free (block : Block) (rest : List Block) (heap : Heap)
      (runs : fixedAllocatorFree s.heap block = some heap)
      (freed : s.live.Perm (block :: rest)) : Step s (.free block) ⟨heap, rest⟩
  | write (memory : Nat → Nat)
      (inside : ∀ address, (∀ block ∈ s.live,
        address + pointerSize ≤ block.1 ∨ block.1 + block.2 ≤ address) →
          memory address = s.heap.memory address) : Step s .write ⟨{ s.heap with memory }, s.live⟩

/-- No arena is taken while a freed block of the pool is at hand. -/
def Event.Reuses : Event → Prop
  | .allocate _ _ _ (some pool) => pool.freeList = 0
  | _ => True

/-- The collection before a new arena frees no block of the size class that the
arena is for. -/
def Event.SparesItsPool : Event → Prop
  | .allocate size _ garbage (some _) => ∀ block ∈ garbage, sizeClass block.2 ≠ sizeClass size
  | _ => True

/-- Runs from a new allocator. -/
inductive Run : List Event → State → Prop
  | new (memory : Nat → Nat) : Run [] ⟨⟨memory, []⟩, []⟩
  | step {events : List Event} {event : Event} {s after : State} (run : Run events s)
      (last : Step s event after) : Run (events ++ [event]) after

end RakudoStar.Gc
