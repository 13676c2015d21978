import RakudoStar.Gc.FixedAllocator
import Mathlib.Data.List.Pairwise
import Mathlib.Data.List.Perm.Basic

/-!
# Slots and pools

Every slot of the arenas of a pool is free, in the hands of the program or not
yet handed out.
-/

namespace RakudoStar.Gc

open List Nat

def slotSize (index : Nat) : Nat := (index + 1) * pointerSize

def perArena (index : Nat) : Nat := (poolNew (slotSize index)).objectsPerAlloc

theorem slotSize_pos (index : Nat) : pointerSize ≤ slotSize index :=
  Nat.le_mul_of_pos_left _ (succ_pos _)

theorem le_slotSize (size : Nat) : size ≤ slotSize (sizeClass size) := by
  simp only [slotSize, sizeClass, pointerSize]
  omega

theorem objectSize_poolNew (index : Nat) : (poolNew (slotSize index)).objectSize = slotSize index :=
  if_neg (Nat.not_lt.mpr (slotSize_pos index))

theorem perArena_pos (index : Nat) : 0 < perArena index := by
  have positive (count : Nat) : 0 < if count = 0 then 1 else count := by
    split <;> omega
  exact positive _

/-- So many consecutive slots. -/
def slots (start size count : Nat) : List Nat :=
  (List.range count).map fun place => start + place * size

theorem slots_succ (start size count : Nat) :
    slots start size (count + 1) = start :: slots (start + size) size count := by
  simp only [slots, range_succ_eq_map, map_cons, map_map, Nat.zero_mul, Nat.add_zero]
  refine congrArg _ (map_congr_left fun place _ => ?_)
  simp only [Function.comp, succ_mul]
  omega

/-- The memory links these blocks into a free list. -/
inductive FreeList (memory : Nat → Nat) : Nat → List Nat → Prop
  | nil : FreeList memory 0 []
  | cons {head : Nat} {rest : List Nat} (nonnull : head ≠ 0)
      (linked : FreeList memory (memory head) rest) : FreeList memory head (head :: rest)

theorem FreeList.congr {memory later : Nat → Nat} {head : Nat} {free : List Nat}
    (list : FreeList memory head free) (same : ∀ block ∈ free, later block = memory block) :
    FreeList later head free := by
  induction list with
  | nil => exact .nil
  | cons nonnull _ ih =>
    rw [forall_mem_cons] at same
    have linked := ih same.2
    rw [← same.1] at linked
    exact .cons nonnull linked

theorem FreeList.of_ne {memory : Nat → Nat} {head : Nat} {free : List Nat}
    (list : FreeList memory head free) (nonnull : head ≠ 0) :
    ∃ rest, free = head :: rest ∧ FreeList memory (memory head) rest := by
  cases list with
  | nil => exact absurd rfl nonnull
  | cons _ linked => exact ⟨_, rfl, linked⟩

/-- Where the slots of the arenas of a size class begin. -/
def arenasOf (arenas : List (Nat × Nat)) (index : Nat) : List Nat :=
  (arenas.filter fun arena => arena.1 = index).map Prod.snd

/-- The slots of a size class in these arenas. -/
def slotsOf (arenas : List (Nat × Nat)) (index : Nat) : List Nat :=
  (arenasOf arenas index).flatMap fun low => slots low (slotSize index) (perArena index)

/-- The blocks of a size class that the program holds. -/
def liveOf (live : List Block) (index : Nat) : List Nat :=
  (live.filter fun block => sizeClass block.2 = index).map Prod.fst

/-- Two arenas, each a size class and a start, have no byte in common. -/
def Apart (first second : Nat × Nat) : Prop :=
  first.2 + slotSize first.1 * perArena first.1 ≤ second.2 ∨
    second.2 + slotSize second.1 * perArena second.1 ≤ first.2

variable {arenas : List (Nat × Nat)} {index other : Nat} {a b : Nat}

theorem mem_arenasOf {low : Nat} : low ∈ arenasOf arenas index ↔ (index, low) ∈ arenas := by
  simp [arenasOf]

theorem mem_slotsOf : a ∈ slotsOf arenas index ↔ ∃ low, (index, low) ∈ arenas ∧
    ∃ place < perArena index, low + place * slotSize index = a := by
  simp [slotsOf, slots, mem_arenasOf]

theorem mem_liveOf {live : List Block} :
    a ∈ liveOf live index ↔ ∃ size, (a, size) ∈ live ∧ sizeClass size = index := by
  simp [liveOf]

theorem liveOf_cons (block : Block) (live : List Block) :
    liveOf (block :: live) index = if sizeClass block.2 = index then
      block.1 :: liveOf live index else liveOf live index := by
  by_cases same : sizeClass block.2 = index <;> simp [liveOf, same]

theorem liveOf_perm {live later : List Block} (perm : live.Perm later) (index : Nat) :
    (liveOf live index).Perm (liveOf later index) :=
  (perm.filter _).map _

theorem slot_inside {place : Nat} (inside : place < perArena index) :
    place * slotSize index + slotSize index ≤ slotSize index * perArena index := by
  rw [← succ_mul, Nat.mul_comm (slotSize index)]
  exact Nat.mul_le_mul_right _ inside

theorem slots_apart (apart : arenas.Pairwise Apart) (first : a ∈ slotsOf arenas index)
    (second : b ∈ slotsOf arenas other) :
    (index = other ∧ a = b) ∨ a + slotSize index ≤ b ∨ b + slotSize other ≤ a := by
  obtain ⟨low, arena, place, inside, rfl⟩ := mem_slotsOf.mp first
  obtain ⟨low', arena', place', inside', rfl⟩ := mem_slotsOf.mp second
  have room := slot_inside inside
  have room' := slot_inside inside'
  by_cases same : ((index, low) : Nat × Nat) = (other, low')
  · cases same
    rcases Nat.lt_trichotomy place place' with less | rfl | less
    · have step := Nat.mul_le_mul_right (slotSize index) less
      rw [succ_mul] at step
      omega
    · exact .inl ⟨rfl, rfl⟩
    · have step := Nat.mul_le_mul_right (slotSize index) less
      rw [succ_mul] at step
      omega
  have : Std.Symm Apart := ⟨fun _ _ => Or.symm⟩
  rcases apart.forall arena arena' same with before | behind
  · dsimp only at before
    omega
  · dsimp only at behind
    omega

theorem nodup_slotsOf (apart : arenas.Pairwise Apart) : (slotsOf arenas index).Nodup := by
  rw [slotsOf, nodup_flatMap]
  constructor
  · intro low _
    refine List.Nodup.map (fun first second same => ?_) nodup_range
    exact eq_of_mul_eq_mul_right (Nat.lt_of_lt_of_le (by decide) (slotSize_pos index))
      (Nat.add_left_cancel same)
  refine pairwise_map.mpr ((apart.filter _).imp_of_mem fun mem mem' apart slot first second =>
    ?_)
  simp only [mem_filter, decide_eq_true_eq] at mem mem'
  obtain ⟨place, inside, rfl⟩ := mem_map.mp first
  obtain ⟨place', inside', same⟩ := mem_map.mp second
  have room := slot_inside (mem_range.mp inside)
  have room' := slot_inside (mem_range.mp inside')
  have positive := slotSize_pos index
  have word : 0 < pointerSize := by decide
  rcases apart with before | behind
  · rw [mem.2] at before
    omega
  · rw [mem'.2] at behind
    omega

end RakudoStar.Gc
