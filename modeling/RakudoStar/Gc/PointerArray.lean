import RakudoStar.Gc.Slots

/-!
# Arrays of pointers

The collector keeps its generations in arrays of chunks whose cells never move. Removed cells are
linked into a list through their words, which have the lowest bit set.
-/

namespace RakudoStar.Gc

open List Function

def chunkSize : Nat := 4096

def cellPerChunk : Nat := (chunkSize - 2 * pointerSize) / pointerSize

/-- The header of a chunk, and where it lies. -/
structure Chunk where
  address : Nat
  numFree : Nat
  nextFree : Nat

def Chunk.data (chunk : Chunk) : Nat := chunk.address + 2 * pointerSize

def Chunk.cell (chunk : Chunk) (j : Nat) : Nat := chunk.data + j * pointerSize

/-- The header when one more cell is used. -/
def Chunk.taken (chunk : Chunk) : Chunk :=
  { chunk with numFree := chunk.numFree - 1, nextFree := chunk.nextFree + 1 }

/-- An array and the words of its cells, by their addresses. -/
structure PointerArray where
  nextFree : Nat
  currentChunk : Nat
  chunks : List Chunk
  words : Nat → Nat

namespace PointerArray

def new : PointerArray := ⟨0, 0, [], fun _ => 0⟩

/-- A word without its lowest bit. -/
def untag (word : Nat) : Nat := word - word % 2

/-- There is room, if need be in a new chunk at `block`, with whatever words are there. -/
def withRoom (self : PointerArray) (block : Nat) (fresh : Nat → Nat) : PointerArray :=
  if self.chunks[self.currentChunk]?.all (·.numFree = 0) then
    { self with
      currentChunk := self.chunks.length
      chunks := self.chunks ++ [⟨block, cellPerChunk, 0⟩]
      words := fun address =>
        if block ≤ address ∧ address < block + chunkSize then fresh address
        else self.words address }
  else self

/-- `Parrot_pa_insert`: the cell and the array. -/
def insert (self : PointerArray) (ptr block : Nat) (fresh : Nat → Nat) : Nat × PointerArray :=
  if self.nextFree ≠ 0 then
    (self.nextFree, { self with
      nextFree := untag (self.words self.nextFree)
      words := update self.words self.nextFree ptr })
  else
    let self := self.withRoom block fresh
    let chunk := self.chunks.getD self.currentChunk ⟨0, 0, 0⟩
    let cell := chunk.cell chunk.nextFree
    (cell, { self with
      chunks := self.chunks.set self.currentChunk chunk.taken
      words := update self.words cell ptr })

def remove (self : PointerArray) (cell : Nat) : PointerArray :=
  { self with nextFree := cell, words := update self.words cell (self.nextFree ||| 1) }

/-- The cells of a chunk that `POINTER_ARRAY_ITER` comes to. -/
def usedCells (chunk : Chunk) : List Nat :=
  (List.range (cellPerChunk - chunk.numFree)).map chunk.cell

def cells (self : PointerArray) : List Nat := self.chunks.flatMap usedCells

/-- `POINTER_ARRAY_ITER`, with code that may remove the cell it visits. -/
def iterate {σ : Type} (body : Nat → Nat → σ → Bool × σ) :
    List Nat → PointerArray → σ → List ((Nat × Nat) × Bool) × PointerArray × σ
  | [], self, s => ([], self, s)
  | cell :: rest, self, s =>
    let ptr := self.words cell
    if ptr % 2 = 1 then iterate body rest self s
    else
      let done := body cell ptr s
      let result := iterate body rest (if done.1 then self.remove cell else self) done.2
      (((cell, ptr), done.1) :: result.1, result.2)

def countUsed (self : PointerArray) : Nat :=
  (iterate (fun _ _ count => (false, count + 1)) self.cells self 0).2.2

/-- The word at an address, which has bytes of two cells if it is not aligned. -/
def readWord (words : Nat → Nat) (address : Nat) : Nat :=
  let bits := 8 * (address % pointerSize)
  if bits = 0 then words address
  else
    let low := address - address % pointerSize
    (words low >>> bits ||| words (low + pointerSize) <<< (64 - bits)) % 18446744073709551616

/-- The word is read from the first chunk that the comparisons let through, or from behind it. -/
def ownedIn (self : PointerArray) (orig ref : Nat) : List Chunk → Except Unit Bool
  | [] => .ok false
  | chunk :: rest =>
    if ref < chunk.data then self.ownedIn orig ref rest
    else if ref > chunk.address + chunkSize then self.ownedIn orig ref rest
    else if ref + pointerSize ≤ chunk.address + chunkSize then
      .ok (readWord self.words ref = orig)
    else .error ()

/-- `Parrot_pa_is_owned`, which fails where it reads outside a chunk. -/
def isOwned (self : PointerArray) (orig ref : Nat) : Except Unit Bool :=
  if ref = 0 then .ok false else self.ownedIn orig ref self.chunks

/-- A block that can be allocated: it is aligned and has no byte in common with a chunk. -/
def Fresh (self : PointerArray) (block : Nat) : Prop :=
  0 < block ∧ block % pointerSize = 0 ∧ ∀ chunk ∈ self.chunks,
    chunk.address + chunkSize ≤ block ∨ block + chunkSize ≤ chunk.address

/-- Insertions of clean pointers and removals of live cells make this array. -/
inductive Reaches : PointerArray → List (Nat × Nat) → Prop
  | new : Reaches new []
  | insert {self : PointerArray} {live : List (Nat × Nat)} (ptr block : Nat) (fresh : Nat → Nat)
    (reaches : Reaches self live) (even : ptr % 2 = 0) (isFresh : self.Fresh block) :
    Reaches (self.insert ptr block fresh).2 (((self.insert ptr block fresh).1, ptr) :: live)
  | remove {self : PointerArray} {live : List (Nat × Nat)} (cell : Nat)
    (reaches : Reaches self live) (isLive : cell ∈ live.map Prod.fst) :
    Reaches (self.remove cell) (live.filter (·.1 ≠ cell))

/-- No two of these chunks have a byte in common. -/
def Apart (chunks : List Nat) : Prop :=
  chunks.Pairwise fun c d => c + chunkSize ≤ d ∨ d + chunkSize ≤ c

/-- The words link these cells into a free list, with their lowest bits set. -/
def Tagged (words : Nat → Nat) (head : Nat) (free : List Nat) : Prop :=
  FreeList (fun cell => untag (words cell)) head free ∧ ∀ cell ∈ free, words cell % 2 = 1

/-- The cells used so far are those that are live and those of the free list. -/
structure Holds (a : PointerArray) (live : List (Nat × Nat)) : Prop where
  apart : Apart (a.chunks.map Chunk.address)
  headers : ∀ chunk ∈ a.chunks, 0 < chunk.address ∧ chunk.address % pointerSize = 0 ∧
    chunk.numFree + chunk.nextFree = cellPerChunk
  parts : ∃ free, Tagged a.words a.nextFree free ∧ (live.map Prod.fst ++ free).Perm a.cells
  words : ∀ e ∈ live, a.words e.1 = e.2 ∧ e.2 % 2 = 0

variable {a : PointerArray} {live : List (Nat × Nat)} {cell ptr block : Nat}
  {fresh : Nat → Nat}

theorem mem_cells : cell ∈ a.cells ↔
    ∃ chunk ∈ a.chunks, ∃ j < cellPerChunk - chunk.numFree, chunk.cell j = cell := by
  simp [cells, usedCells]

theorem cell_within (chunk : Chunk) {j : Nat} (inside : j < cellPerChunk) :
    chunk.data ≤ chunk.cell j ∧ chunk.cell j + pointerSize ≤ chunk.address + chunkSize := by
  have inside : j < 510 := inside
  simp only [Chunk.cell, Chunk.data, pointerSize, chunkSize]
  omega

theorem untag_tag {word : Nat} (even : word % 2 = 0) : untag (word ||| 1) = word := by
  have half : (word ||| 1) / 2 = word / 2 := by rw [Nat.or_div_two, Nat.or_zero]
  rw [untag]
  omega

theorem tag_odd (word : Nat) : (word ||| 1) % 2 = 1 := Nat.or_mod_two_eq_one.mpr (.inr rfl)

theorem nodup_cells (apart : Apart (a.chunks.map Chunk.address)) : a.cells.Nodup := by
  rw [cells, nodup_flatMap]
  constructor
  · intro chunk _
    refine Nodup.map (fun j k same => ?_) nodup_range
    have same : chunk.data + j * 8 = chunk.data + k * 8 := same
    omega
  refine (pairwise_map.mp apart).imp fun {c d} apart cell first second => ?_
  obtain ⟨j, inside, rfl⟩ := mem_map.mp first
  obtain ⟨k, inside', same⟩ := mem_map.mp second
  have one := cell_within c (Nat.lt_of_lt_of_le (mem_range.mp inside) (Nat.sub_le _ _))
  have two := cell_within d (Nat.lt_of_lt_of_le (mem_range.mp inside') (Nat.sub_le _ _))
  rw [same] at two
  simp only [Chunk.data, pointerSize, chunkSize] at one two apart
  omega

theorem usedCells_append {chunk : Chunk} (room : chunk.numFree ≠ 0)
    (header : chunk.numFree + chunk.nextFree = cellPerChunk) :
    usedCells chunk.taken = usedCells chunk ++ [chunk.cell chunk.nextFree] := by
  have used : cellPerChunk - chunk.numFree = chunk.nextFree := by omega
  have next : cellPerChunk - (chunk.numFree - 1) = chunk.nextFree + 1 := by omega
  rw [usedCells, usedCells, used, Chunk.taken, next, range_succ, map_append]
  rfl

theorem flatMap_set_perm {c d : Chunk} {chunks : List Chunk} {i : Nat}
    (found : chunks[i]? = some c) (more : usedCells d = usedCells c ++ [cell]) :
    ((chunks.set i d).flatMap usedCells).Perm (cell :: chunks.flatMap usedCells) := by
  induction chunks generalizing i with
  | nil => cases found
  | cons chunk chunks ih =>
    cases i with
    | zero =>
      cases found
      rw [set_cons_zero, flatMap_cons, flatMap_cons, more, append_assoc]
      exact perm_middle
    | succ i => exact ((ih found).append_left _).trans perm_middle

theorem Tagged.congr {words later : Nat → Nat} {head : Nat} {free : List Nat}
    (tagged : Tagged words head free) (same : ∀ cell ∈ free, later cell = words cell) :
    Tagged later head free :=
  ⟨tagged.1.congr fun cell member => congrArg untag (same cell member),
    fun cell member => (congrArg (· % 2) (same cell member)).trans (tagged.2 cell member)⟩

section

variable (holds : Holds a live)

include holds

theorem Holds.cell_aligned (member : cell ∈ a.cells) : cell % pointerSize = 0 ∧ 0 < cell := by
  obtain ⟨chunk, isIn, j, _, rfl⟩ := mem_cells.mp member
  obtain ⟨positive, aligned, _⟩ := holds.headers chunk isIn
  simp only [Chunk.cell, Chunk.data, pointerSize] at aligned ⊢
  omega

theorem Holds.mem_cells_of_live (isLive : cell ∈ live.map Prod.fst) : cell ∈ a.cells := by
  obtain ⟨free, -, perm⟩ := holds.parts
  exact perm.subset (mem_append_left _ isLive)

/-- The words outside the cells used so far do not matter. -/
theorem Holds.congr (later : Nat → Nat) (same : ∀ cell ∈ a.cells, later cell = a.words cell) :
    Holds { a with words := later } live := by
  obtain ⟨free, tagged, perm⟩ := holds.parts
  refine ⟨holds.apart, holds.headers, ⟨free, tagged.congr fun cell member =>
    same cell (perm.subset (mem_append_right _ member)), perm⟩, fun e member => ?_⟩
  have same := same e.1 (holds.mem_cells_of_live (mem_map_of_mem member))
  exact ⟨same.trans (holds.words e member).1, (holds.words e member).2⟩

/-- A free cell gets a pointer. -/
theorem Holds.reuse (even : ptr % 2 = 0) (nonnull : a.nextFree ≠ 0) : Holds { a with
      nextFree := untag (a.words a.nextFree)
      words := update a.words a.nextFree ptr } ((a.nextFree, ptr) :: live) := by
  obtain ⟨free, ⟨list, odd⟩, perm⟩ := holds.parts
  obtain ⟨rest, rfl, linked⟩ := list.of_ne nonnull
  have nodup := nodup_append.mp (perm.nodup_iff.mpr (nodup_cells holds.apart))
  have notRest := (nodup_cons.mp nodup.2.1).1
  have tagged : Tagged a.words (untag (a.words a.nextFree)) rest :=
    ⟨linked, (forall_mem_cons.mp odd).2⟩
  refine ⟨holds.apart, holds.headers, ⟨rest, tagged.congr fun cell member => ?_,
    perm_middle.symm.trans perm⟩, forall_mem_cons.mpr ⟨⟨update_self .., even⟩, fun e member => ?_⟩⟩
  · exact update_of_ne (ne_of_mem_of_not_mem member notRest) ..
  have apart : e.1 ≠ a.nextFree := nodup.2.2 e.1 (mem_map_of_mem member) a.nextFree mem_cons_self
  exact ⟨(update_of_ne apart ..).trans (holds.words e member).1, (holds.words e member).2⟩

/-- A live cell is put in front of the free list. -/
theorem Holds.remove (isLive : cell ∈ live.map Prod.fst) :
    Holds (a.remove cell) (live.filter (·.1 ≠ cell)) := by
  obtain ⟨free, tagged, perm⟩ := holds.parts
  have nodup := nodup_append.mp (perm.nodup_iff.mpr (nodup_cells holds.apart))
  have notFree : cell ∉ free := fun member => nodup.2.2 cell isLive cell member rfl
  have kept : Tagged (a.remove cell).words a.nextFree free := tagged.congr fun other member =>
    update_of_ne (ne_of_mem_of_not_mem member notFree) ..
  have even : a.nextFree % 2 = 0 := by
    by_cases null : a.nextFree = 0
    · rw [null]
    obtain ⟨rest, rfl, -⟩ := tagged.1.of_ne null
    have aligned := (holds.cell_aligned (perm.subset (mem_append_right _ mem_cons_self))).1
    rw [pointerSize] at aligned
    omega
  have first : (a.remove cell).words cell = a.nextFree ||| 1 := update_self ..
  refine ⟨holds.apart, holds.headers, ⟨cell :: free, ⟨.cons ?_ ?_, ?_⟩, ?_⟩, fun e member => ?_⟩
  · exact Nat.ne_of_gt (holds.cell_aligned (holds.mem_cells_of_live isLive)).2
  · change FreeList _ (untag ((a.remove cell).words cell)) free
    rw [first, untag_tag even]
    exact kept.1
  · exact forall_mem_cons.mpr ⟨(congrArg (· % 2) first).trans (tag_odd _), kept.2⟩
  · have taken : (live.map Prod.fst).Perm
        (cell :: (live.filter (·.1 ≠ cell)).map Prod.fst) := by
      refine (perm_cons_erase isLive).trans (Perm.of_eq ?_)
      rw [nodup.1.erase_eq_filter, filter_map]
      congr 3
      funext e
      exact Bool.eq_iff_iff.mpr (bne_iff_ne.trans decide_eq_true_iff.symm)
    exact perm_middle.trans ((taken.symm.append_right free).trans perm)
  · obtain ⟨isIn, apart⟩ := mem_filter.mp member
    exact ⟨(update_of_ne (of_decide_eq_true apart) _ _).trans (holds.words e isIn).1,
      (holds.words e isIn).2⟩

theorem Holds.withRoom (isFresh : a.Fresh block) : Holds (a.withRoom block fresh) live ∧
    ∃ chunk, (a.withRoom block fresh).chunks[(a.withRoom block fresh).currentChunk]? = some chunk ∧
      chunk.numFree ≠ 0 := by
  unfold PointerArray.withRoom
  split
  · refine ⟨?_, ⟨block, cellPerChunk, 0⟩, getElem?_concat_length ..,
      show cellPerChunk ≠ 0 by decide⟩
    have outside : ∀ cell ∈ a.cells, ¬(block ≤ cell ∧ cell < block + chunkSize) := by
      rintro cell member ⟨low, high⟩
      obtain ⟨chunk, isIn, j, inside, rfl⟩ := mem_cells.mp member
      have within := cell_within chunk (Nat.lt_of_lt_of_le inside (Nat.sub_le _ _))
      have apart := isFresh.2.2 chunk isIn
      simp only [Chunk.data, pointerSize] at within
      omega
    have old := holds.congr
      (fun address => if block ≤ address ∧ address < block + chunkSize then fresh address
        else a.words address)
      fun cell member => if_neg (outside cell member)
    have sameCells : (a.chunks ++ [Chunk.mk block cellPerChunk 0]).flatMap usedCells = a.cells := by
      rw [flatMap_append, cells]
      exact append_nil _
    obtain ⟨free, tagged, perm⟩ := old.parts
    refine ⟨?_, ?_, ⟨free, tagged, perm.trans (Perm.of_eq sameCells.symm)⟩, old.words⟩
    · rw [map_append]
      refine pairwise_append.mpr ⟨holds.apart, pairwise_singleton .., fun c member d isBlock => ?_⟩
      obtain ⟨chunk, isIn, rfl⟩ := mem_map.mp member
      rw [mem_singleton.mp isBlock]
      exact isFresh.2.2 chunk isIn
    · exact forall_mem_append.mpr
        ⟨holds.headers, fun chunk isNew => by
          rw [mem_singleton.mp isNew]
          exact ⟨isFresh.1, isFresh.2.1, rfl⟩⟩
  · rename_i room
    refine ⟨holds, ?_⟩
    cases found : a.chunks[a.currentChunk]? with
    | none => exact absurd (by rw [found]; rfl) room
    | some chunk =>
      rw [found] at room
      exact ⟨chunk, rfl, fun full => room (decide_eq_true full)⟩

/-- The next cell of the current chunk gets a pointer. -/
theorem Holds.place {chunk : Chunk} {i : Nat} (even : ptr % 2 = 0)
    (current : a.chunks[i]? = some chunk) (room : chunk.numFree ≠ 0) : Holds { a with
      chunks := a.chunks.set i chunk.taken
      words := update a.words (chunk.cell chunk.nextFree) ptr }
      ((chunk.cell chunk.nextFree, ptr) :: live) := by
  have header := holds.headers chunk (mem_of_getElem? current)
  have used := flatMap_set_perm current (usedCells_append room header.2.2)
  have apart : Apart ((a.chunks.set i chunk.taken).map Chunk.address) := by
    obtain ⟨inside, rfl⟩ := List.getElem?_eq_some_iff.mp current
    rw [map_set, Chunk.taken, ← getElem_map Chunk.address, set_getElem_self]
    · exact holds.apart
    · rwa [length_map]
  have unused := (nodup_cons.mp (used.nodup_iff.mp (@nodup_cells { a with chunks := _ } apart))).1
  have old := holds.congr _ fun cell member =>
    update_of_ne (ne_of_mem_of_not_mem member unused) ptr a.words
  obtain ⟨free, tagged, perm⟩ := old.parts
  refine ⟨apart, fun other member => ?_, ⟨free, tagged, (perm.cons _).trans used.symm⟩,
    forall_mem_cons.mpr ⟨⟨update_self .., even⟩, old.words⟩⟩
  rcases mem_or_eq_of_mem_set member with isOld | rfl
  · exact holds.headers other isOld
  · refine ⟨header.1, header.2.1, ?_⟩
    have header := header.2.2
    simp only [Chunk.taken]
    omega

theorem Holds.insert (even : ptr % 2 = 0) (isFresh : a.Fresh block) :
    Holds (a.insert ptr block fresh).2 (((a.insert ptr block fresh).1, ptr) :: live) := by
  unfold PointerArray.insert
  split
  · exact holds.reuse even ‹_›
  · obtain ⟨held, chunk, current, room⟩ := @Holds.withRoom a live block fresh holds isFresh
    dsimp only
    rw [getD_eq_getElem?_getD, current]
    exact held.place even current room

theorem Holds.nodup : (live.map Prod.fst).Nodup := by
  obtain ⟨free, -, perm⟩ := holds.parts
  exact (nodup_append.mp (perm.nodup_iff.mpr (nodup_cells holds.apart))).1

theorem Holds.even_cells :
    ((a.cells.filter (a.words · % 2 = 0)).map fun cell => (cell, a.words cell)).Perm live := by
  obtain ⟨free, ⟨-, odd⟩, perm⟩ := holds.parts
  have none : free.filter (a.words · % 2 = 0) = [] := filter_eq_nil_iff.mpr fun cell member => by
    rw [odd cell member]
    decide
  have all : (live.map Prod.fst).filter (a.words · % 2 = 0) = live.map Prod.fst :=
    filter_eq_self.mpr fun cell isLive => by
      obtain ⟨e, member, rfl⟩ := mem_map.mp isLive
      have held := holds.words e member
      exact decide_eq_true (held.1 ▸ held.2)
  have evens := (perm.filter (a.words · % 2 = 0)).symm.map fun cell => (cell, a.words cell)
  rw [filter_append, none, all, append_nil, map_map] at evens
  refine evens.trans (Perm.of_eq ((map_congr_left fun e member => ?_).trans (map_id _)))
  exact Prod.ext rfl (holds.words e member).1

end

theorem Reaches.holds (reaches : Reaches a live) : Holds a live := by
  induction reaches with
  | new => exact ⟨.nil, nofun, ⟨[], ⟨.nil, nofun⟩, .nil⟩, nofun⟩
  | insert ptr block fresh _ even isFresh ih => exact ih.insert even isFresh
  | remove cell _ isLive ih => exact ih.remove isLive

variable {σ : Type} {body : Nat → Nat → σ → Bool × σ} {rest : List Nat}

theorem iterate_visited (nodup : rest.Nodup) (s : σ) : (iterate body rest a s).1.map Prod.fst =
      (rest.filter (a.words · % 2 = 0)).map fun cell => (cell, a.words cell) := by
  induction rest generalizing a s with
  | nil => rfl
  | cons cell rest ih =>
    obtain ⟨fresh, nodup⟩ := nodup_cons.mp nodup
    rw [iterate]
    split
    · rename_i odd
      rw [filter_cons_of_neg (by rw [odd]; decide), ih nodup]
    · rename_i even
      rw [filter_cons, if_pos (decide_eq_true (Nat.mod_two_ne_one.mp even)), map_cons]
      refine congrArg _ ((ih nodup _).trans ?_)
      split
      · have same : ∀ other ∈ rest, (a.remove cell).words other = a.words other :=
          fun other member => update_of_ne (ne_of_mem_of_not_mem member fresh) _ _
        rw [filter_congr fun other member => by rw [same other member]]
        exact map_congr_left fun other member => by rw [same other (mem_filter.mp member).1]
      · rfl

theorem Reaches.iterate (reaches : Reaches a live) (used : ∀ cell ∈ rest, cell ∈ a.cells) (s : σ) :
    Reaches (iterate body rest a s).2.1
      (live.filter fun e => (e, true) ∉ (PointerArray.iterate body rest a s).1) := by
  induction rest generalizing a live s with
  | nil => exact (filter_eq_self.mpr fun _ _ => rfl).symm ▸ reaches
  | cons cell rest ih =>
    obtain ⟨isUsed, used⟩ := forall_mem_cons.mp used
    rw [PointerArray.iterate]
    split
    · exact ih reaches used s
    · rename_i even
      have isLive : (cell, a.words cell) ∈ live := reaches.holds.even_cells.subset
        (mem_map_of_mem (mem_filter.mpr ⟨isUsed, decide_eq_true (Nat.mod_two_ne_one.mp even)⟩))
      have only : ∀ e ∈ live, (e.1 = cell ↔ e = (cell, a.words cell)) := fun e member =>
        ⟨fun same => Prod.ext same (same ▸ (reaches.holds.words e member).1.symm),
          fun same => same ▸ rfl⟩
      cases removed : (body cell (a.words cell) s).1 with
      | false =>
        have later := ih reaches used (body cell (a.words cell) s).2
        simpa [removed] using later
      | true =>
        have later := ih (reaches.remove cell (mem_map_of_mem isLive)) used
          (body cell (a.words cell) s).2
        rw [filter_filter] at later
        simp only [removed, if_true, mem_cons, Prod.mk.injEq, and_true, not_or]
        refine (filter_congr fun e member => ?_) ▸ later
        rw [Bool.decide_and, Bool.and_comm, decide_eq_decide.mpr (not_congr (only e member))]

theorem countUsed_eq (rest : List Nat) (count : Nat) :
    (iterate (fun _ _ count => (false, count + 1)) rest a count).2.2 = count +
      (iterate (fun _ _ count => (false, count + 1)) rest a count).1.length := by
  induction rest generalizing count with
  | nil => rfl
  | cons cell rest ih =>
    rw [PointerArray.iterate]
    split
    · exact ih count
    · exact (ih (count + 1)).trans (by rw [length_cons, Nat.add_assoc, Nat.add_comm 1]; rfl)

/-- The comparisons let whole words through, and no stale word is the pointer asked for. -/
def Proper (a : PointerArray) (live : List (Nat × Nat)) (orig ref : Nat) : Prop :=
  ref ≠ 0 → ∀ chunk, a.chunks.find? (fun chunk =>
      chunk.data ≤ ref ∧ ref ≤ chunk.address + chunkSize) = some chunk →
    ref + pointerSize ≤ chunk.address + chunkSize ∧
    (ref ∉ live.map Prod.fst → readWord a.words ref ≠ orig)

theorem ownedIn_eq (orig ref : Nat) (chunks : List Chunk) : a.ownedIn orig ref chunks =
    match chunks.find? fun chunk => chunk.data ≤ ref ∧ ref ≤ chunk.address + chunkSize with
    | none => .ok false
    | some chunk => if ref + pointerSize ≤ chunk.address + chunkSize then
        .ok (readWord a.words ref = orig) else .error () := by
  induction chunks with
  | nil => rfl
  | cons chunk rest ih =>
    rw [ownedIn]
    by_cases below : ref < chunk.data
    · rw [if_pos below, ih, find?_cons_of_neg]
      exact fun inside => Nat.not_le.mpr below (of_decide_eq_true inside).1
    by_cases above : ref > chunk.address + chunkSize
    · rw [if_neg below, if_pos above, ih, find?_cons_of_neg]
      exact fun inside => Nat.not_le.mpr above (of_decide_eq_true inside).2
    · have inside := And.intro (Nat.not_lt.mp below) (Nat.not_lt.mp above)
      rw [if_neg below, if_neg above, find?_cons, decide_eq_true inside]

theorem Holds.isOwned_iff (holds : Holds a live) (orig ref : Nat) :
    a.isOwned orig ref = .ok (decide ((ref, orig) ∈ live)) ↔ Proper a live orig ref := by
  have isUsed (isLive : ref ∈ live.map Prod.fst) := holds.mem_cells_of_live isLive
  have absent (notLive : ref ∉ live.map Prod.fst) : (ref, orig) ∉ live :=
    mt mem_map_of_mem notLive
  rw [isOwned, Proper]
  by_cases null : ref = 0
  · have notLive : ref ∉ live.map Prod.fst := fun isLive =>
      absurd null (Nat.ne_of_gt (holds.cell_aligned (isUsed isLive)).2)
    rw [if_pos null, decide_eq_false (absent notLive)]
    exact iff_of_true rfl fun nonnull => absurd null nonnull
  rw [if_neg null, ownedIn_eq]
  cases found : a.chunks.find? fun chunk => chunk.data ≤ ref ∧ ref ≤ chunk.address + chunkSize with
  | none =>
    have notLive : ref ∉ live.map Prod.fst := fun isLive => by
      obtain ⟨chunk, isIn, j, inside, rfl⟩ := mem_cells.mp (isUsed isLive)
      have within := cell_within chunk (Nat.lt_of_lt_of_le inside (Nat.sub_le _ _))
      exact find?_eq_none.mp found chunk isIn
        (decide_eq_true ⟨within.1, Nat.le_of_add_right_le within.2⟩)
    rw [decide_eq_false (absent notLive)]
    exact iff_of_true rfl fun _ _ => nofun
  | some chunk =>
    dsimp only
    by_cases inside : ref + pointerSize ≤ chunk.address + chunkSize
    · rw [if_pos inside, Except.ok.injEq, decide_eq_decide]
      by_cases isLive : ref ∈ live.map Prod.fst
      · refine iff_of_true ?_ fun _ _ same => Option.some.inj same ▸ ⟨inside, absurd isLive⟩
        obtain ⟨e, member, rfl⟩ := mem_map.mp isLive
        rw [readWord, (holds.cell_aligned (isUsed isLive)).1, if_pos rfl]
        refine ⟨fun same => ?_, fun member => (holds.words _ member).1⟩
        rw [← same, (holds.words e member).1]
        exact member
      · rw [iff_false_right (absent isLive)]
        exact ⟨fun differ _ _ same => Option.some.inj same ▸ ⟨inside, fun _ => differ⟩,
          fun proper => (proper null chunk rfl).2 isLive⟩
    · rw [if_neg inside]
      exact iff_of_false nofun fun proper => inside (proper null chunk rfl).1

theorem bag_of_cells (reaches : Reaches a live) : (∀ ptr block fresh, ptr % 2 = 0 → a.Fresh block →
      (a.insert ptr block fresh).1 ∉ live.map Prod.fst) ∧ (∀ e ∈ live, a.words e.1 = e.2) ∧
    (∀ (σ : Type) (body : Nat → Nat → σ → Bool × σ) (s : σ),
      ((iterate body a.cells a s).1.map Prod.fst).Perm live ∧ Reaches (iterate body a.cells a s).2.1
        (live.filter fun e => (e, true) ∉ (iterate body a.cells a s).1)) ∧
    a.countUsed = live.length ∧ ∀ orig ref, a.isOwned orig ref = .ok (decide ((ref, orig) ∈ live)) ↔
      Proper a live orig ref := by
  have holds := reaches.holds
  have visits {σ : Type} (body : Nat → Nat → σ → Bool × σ) (s : σ) :
      ((iterate body a.cells a s).1.map Prod.fst).Perm live := by
    rw [iterate_visited (nodup_cells holds.apart)]
    exact holds.even_cells
  refine ⟨fun ptr block fresh even isFresh => ?_, fun e member => (holds.words e member).1,
    fun σ body s => ⟨visits body s, reaches.iterate (fun _ => id) s⟩, ?_, holds.isOwned_iff⟩
  · exact (nodup_cons.mp (holds.insert even isFresh).nodup).1
  · rw [countUsed, countUsed_eq, Nat.zero_add, ← length_map Prod.fst]
    exact (visits _ 0).length_eq

theorem new_fresh : new.Fresh 4096 := ⟨by decide, by decide, nofun⟩

theorem bag_of_cells_one : (new.insert 2 4096 fun _ => 0).2.countUsed = 1 :=
  (bag_of_cells (.insert 2 4096 (fun _ => 0) .new rfl new_fresh)).2.2.2.1

/-- The word behind a chunk is read. -/
theorem isOwned_behind : ¬∀ a live, Reaches a live → ∀ orig ref,
    a.isOwned orig ref = .ok (decide ((ref, orig) ∈ live)) :=
  fun all => by
    have same := all _ _ (.insert 2 4096 (fun _ => 0) .new rfl new_fresh) 2 8192
    simp [insert, withRoom, new, isOwned, ownedIn, Chunk.data, Chunk.taken, chunkSize,
      pointerSize] at same

end PointerArray

end RakudoStar.Gc
