import RakudoStar.Gc.Slots

/-!
# Runs of the fixed-size allocator

What one call keeps, over all pools, and from it what every run keeps.
-/

namespace RakudoStar.Gc

open List Function

/-- A pool: arenas, and slots that are free, the program's or not handed out. -/
structure PoolFits (memory : Nat → Nat) (arenas : List (Nat × Nat)) (live : List Nat) (index : Nat)
    (pool : PoolAllocator) : Prop where
  size : pool.objectSize = slotSize index
  count : pool.objectsPerAlloc = perArena index
  bounds : pool.arenaBounds = (arenasOf arenas index).map fun low =>
    (low, low + slotSize index * perArena index)
  range : ∀ low ∈ arenasOf arenas index, pool.loArenaPtr ≤ low ∧
    low + slotSize index * perArena index ≤ pool.hiArenaPtr
  parts : ∃ free fresh, FreeList memory pool.freeList free ∧
    pool.newlast = pool.newfree + fresh * slotSize index ∧
      (free ++ live ++ slots pool.newfree (slotSize index) fresh).Perm (slotsOf arenas index) ∧
        pool.numFreeObjects = free.length + fresh

variable {memory later : Nat → Nat} {arenas : List (Nat × Nat)} {live rest : List Nat}
  {index : Nat} {pool : PoolAllocator}

section

variable (fits : PoolFits memory arenas live index pool)

include fits

theorem PoolFits.congr (apart : arenas.Pairwise Apart)
    (same : ∀ slot ∈ slotsOf arenas index, slot ∉ live → later slot = memory slot) :
    PoolFits later arenas live index pool := by
  obtain ⟨free, fresh, list, last, perm, count⟩ := fits.parts
  refine { fits with parts := ⟨free, fresh, list.congr fun slot member => ?_, last, perm, count⟩ }
  have nodup := perm.nodup_iff.mpr (nodup_slotsOf apart)
  refine same slot (perm.subset (by simp [member])) fun held => ?_
  exact (nodup_append.mp (nodup_append.mp nodup).1).2.2 slot member slot held rfl

theorem PoolFits.live_subset : live ⊆ slotsOf arenas index := by
  obtain ⟨_, _, _, _, perm, _⟩ := fits.parts
  exact fun slot held => perm.subset (by simp [held])

theorem PoolFits.counts (apart : arenas.Pairwise Apart) :
    pool.numFreeObjects = ((slotsOf arenas index).filter (· ∉ live)).length := by
  obtain ⟨free, fresh, _, _, perm, count⟩ := fits.parts
  have nodup := perm.nodup_iff.mpr (nodup_slotsOf apart)
  obtain ⟨inner, _, outer⟩ := nodup_append.mp nodup
  have held : live.filter (· ∉ live) = [] := filter_eq_nil_iff.mpr (by simp)
  have unheld : free.filter (· ∉ live) = free := by
    refine filter_eq_self.mpr fun slot member => decide_eq_true fun held => ?_
    exact (nodup_append.mp inner).2.2 slot member slot held rfl
  have fresh_unheld : (slots pool.newfree (slotSize index) fresh).filter (· ∉ live) =
      slots pool.newfree (slotSize index) fresh := by
    refine filter_eq_self.mpr fun slot member => decide_eq_true fun held => ?_
    exact outer slot (mem_append_right _ held) slot member rfl
  rw [count, ← (perm.filter _).length_eq, filter_append, filter_append, held, unheld, fresh_unheld]
  simp [slots]

theorem PoolFits.owned (ptr : Nat) : poolIsOwned pool ptr = true ↔ ptr ∈ slotsOf arenas index := by
  have positive : 0 < slotSize index := Nat.lt_of_lt_of_le (by decide) (slotSize_pos index)
  rw [poolIsOwned, fits.bounds, fits.size, mem_slotsOf]
  constructor
  · intro owned
    split at owned
    case isFalse => cases owned
    case isTrue =>
      simp only [any_map, any_eq_true, Function.comp, decide_eq_true_eq] at owned
      obtain ⟨low, arena, above, below, aligned⟩ := owned
      refine ⟨low, mem_arenasOf.mp arena, (ptr - low) / slotSize index, ?_, ?_⟩
      · rw [Nat.div_lt_iff_lt_mul positive, Nat.mul_comm]
        omega
      · rw [Nat.div_mul_cancel (Nat.dvd_of_mod_eq_zero aligned)]
        omega
  rintro ⟨low, arena, place, inside, rfl⟩
  have room := slot_inside inside
  have range := fits.range low (mem_arenasOf.mpr arena)
  rw [if_pos (by omega)]
  simp only [any_map, any_eq_true, Function.comp, decide_eq_true_eq]
  refine ⟨low, mem_arenasOf.mpr arena, by omega, by omega, ?_⟩
  rw [Nat.add_sub_cancel_left, Nat.mul_mod_left]

theorem PoolFits.free {data : Nat}
    (apart : arenas.Pairwise Apart) (nonnull : ∀ slot ∈ slotsOf arenas index, slot ≠ 0)
    (freed : live.Perm (data :: rest)) : PoolFits (poolFree memory pool data).1 arenas rest index
      (poolFree memory pool data).2 := by
  obtain ⟨free, fresh, list, last, perm, count⟩ := fits.parts
  have moved : (data :: free ++ rest ++ slots pool.newfree (slotSize index) fresh).Perm
      (slotsOf arenas index) := by
    refine List.Perm.trans (.append_right _ ?_) perm
    exact (perm_middle.symm.trans (freed.symm.append_left free))
  have nodup := moved.nodup_iff.mpr (nodup_slotsOf apart)
  have member : data ∈ slotsOf arenas index := moved.subset (by simp)
  refine { fits with parts := ⟨data :: free, fresh, ?_, last, moved, ?_⟩ }
  · refine .cons (nonnull data member) ?_
    simp only [poolFree, update_self]
    refine list.congr fun slot linked => update_of_ne ?_ _ _
    rintro rfl
    simp [linked] at nodup
  · simp only [poolFree, count, length_cons]
    omega

theorem PoolFits.getFreeListItem
    (nonempty : pool.freeList ≠ 0) : PoolFits memory arenas (pool.freeList :: live) index
      (getFreeListItem memory pool).2 := by
  obtain ⟨free, fresh, list, last, perm, count⟩ := fits.parts
  obtain ⟨others, rfl, linked⟩ := list.of_ne nonempty
  refine { fits with parts := ⟨others, fresh, linked, last, ?_, ?_⟩ }
  · exact (perm_middle.append_right _).trans perm
  · simp only [Gc.getFreeListItem, count, length_cons]
    omega

theorem PoolFits.getNewfreeListItem
    (more : pool.newfree < pool.newlast) : PoolFits memory arenas (pool.newfree :: live) index
      (getNewfreeListItem pool).2 := by
  obtain ⟨free, fresh, list, last, perm, count⟩ := fits.parts
  cases fresh with
  | zero => omega
  | succ fresh =>
    rw [Nat.succ_mul] at last
    refine { fits with parts := ⟨free, fresh, list, ?_, ?_, ?_⟩ }
    · simp only [Gc.getNewfreeListItem, fits.size]
      omega
    · refine List.Perm.trans ?_ perm
      simp only [Gc.getNewfreeListItem, fits.size, slots_succ]
      rw [append_assoc, append_assoc]
      exact perm_middle.symm.append_left free
    · simp only [Gc.getNewfreeListItem, count]
      omega

end

theorem arenasOf_append (low other : Nat) : arenasOf (arenas ++ [(index, low)]) other =
      arenasOf arenas other ++ if index = other then [low] else [] := by
  simp only [arenasOf, filter_append, map_append]
  congr 1
  by_cases same : index = other <;> simp [same]

theorem PoolFits.newArena (fits : PoolFits memory arenas live index pool)
    (full : pool.newlast ≤ pool.newfree) (newArena : Nat) :
    PoolFits memory (arenas ++ [(index, newArena + arenaHeader)]) live index
      (allocateNewPoolArena pool newArena) := by
  obtain ⟨free, fresh, list, last, perm, count⟩ := fits.parts
  have positive : 0 < slotSize index := Nat.lt_of_lt_of_le (by decide) (slotSize_pos index)
  have none : fresh = 0 := by
    have := Nat.le_mul_of_pos_right fresh positive
    omega
  subst none
  have room : pool.objectSize * pool.objectsPerAlloc = slotSize index * perArena index := by
    rw [fits.size, fits.count]
  refine { size := fits.size, count := fits.count, bounds := ?_, range := ?_, parts := ?_ }
  · rw [arenasOf_append, if_pos rfl, map_append, ← fits.bounds, ← room]
    rfl
  · intro low member
    rw [arenasOf_append, if_pos rfl, mem_append, mem_singleton] at member
    simp only [allocateNewPoolArena, room]
    rcases member with old | rfl
    · have range := fits.range low old
      constructor <;> split <;> omega
    · constructor <;> split <;> omega
  refine ⟨free, perArena index, list, ?_, ?_, ?_⟩
  · simp only [allocateNewPoolArena, room, Nat.mul_comm]
  · rw [slotsOf, arenasOf_append, if_pos rfl, flatMap_append, flatMap_singleton]
    have old : (free ++ live).Perm (slotsOf arenas index) := by simpa [slots] using perm
    exact old.append_right _
  · simp only [allocateNewPoolArena, count, fits.count, Nat.add_zero]

theorem PoolFits.transfer {arenas' : List (Nat × Nat)}
    (fits : PoolFits memory arenas live index pool)
    (same : arenasOf arenas' index = arenasOf arenas index) (perm : live.Perm rest) :
    PoolFits memory arenas' rest index pool := by
  obtain ⟨free, fresh, list, last, parts, count⟩ := fits.parts
  have moved := ((perm.symm.append_left free).append_right
    (slots pool.newfree (slotSize index) fresh)).trans parts
  rw [slotsOf, ← same] at moved
  have bounds := fits.bounds
  have range := fits.range
  rw [← same] at bounds range
  exact ⟨fits.size, fits.count, bounds, range, free, fresh, list, last, moved, count⟩

theorem pool_setPool {heap : Heap} {old : PoolAllocator} (present : heap.pool index = some old)
    (memory : Nat → Nat) (new : PoolAllocator) (other : Nat) :
    (Heap.setPool { heap with memory } index new).pool other =
      if index = other then some new else heap.pool other := by
  have inside : index < heap.pools.length := by
    by_contra outside
    rw [Heap.pool, getElem?_eq_none (Nat.not_lt.mp outside)] at present
    cases present
  rw [Heap.setPool, Heap.pool, getElem?_set]
  by_cases same : index = other
  · rw [if_pos same, if_pos inside, if_pos same]
    rfl
  · rw [if_neg same, if_neg same]
    rfl

theorem pool_openPool (heap : Heap) (index other : Nat) :
    Heap.pool { heap with pools := openPool heap.pools index } other =
      if index = other then some ((heap.pool index).getD (poolNew (slotSize index)))
      else heap.pool other := by
  have fresh : poolNew ((index + 1) * pointerSize) = poolNew (slotSize index) := rfl
  simp only [Heap.pool, openPool, fresh]
  split
  case isTrue inside =>
    cases entry : heap.pools[index]? with
    | none => exact absurd (List.getElem?_eq_none_iff.mp entry) (Nat.not_le.mpr inside)
    | some pool =>
      cases pool with
      | none =>
        rw [getElem?_set]
        by_cases same : index = other
        · rw [if_pos same, if_pos inside, if_pos same]
          rfl
        · rw [if_neg same, if_neg same]
      | some pool =>
        by_cases same : index = other
        · rw [if_pos same, ← same, entry]
          rfl
        · rw [if_neg same]
  case isFalse outside =>
    have absent := getElem?_eq_none (Nat.not_lt.mp outside)
    rw [append_assoc, getElem?_append]
    by_cases same : index = other
    · subst same
      rw [if_neg outside, getElem?_append_right (by simp), if_pos rfl, absent]
      simp
    rw [if_neg same]
    split
    case isTrue => rfl
    case isFalse beyond =>
      rw [getElem?_eq_none (Nat.not_lt.mp beyond), getElem?_append, getElem?_replicate]
      split
      case isTrue within =>
        rw [if_pos (by simpa using within)]
        rfl
      case isFalse =>
        rw [getElem?_eq_none]
        simp only [length_replicate, length_singleton] at *
        omega

/-- Every pool fits, and no block is of a size class without pool. -/
structure Invariant (arenas : List (Nat × Nat)) (heap : Heap) (live : List Block) : Prop where
  apart : arenas.Pairwise Apart
  nonnull : ∀ arena ∈ arenas, arena.2 ≠ 0
  fits : ∀ index pool, heap.pool index = some pool →
    PoolFits heap.memory arenas (liveOf live index) index pool
  closed : ∀ index, heap.pool index = none → arenasOf arenas index = [] ∧ liveOf live index = []

section

variable {heap : Heap} {live rest : List Block} {old new : PoolAllocator}

section

variable (invariant : Invariant arenas heap live)

include invariant

theorem Invariant.slot_ne_zero {slot : Nat} (member : slot ∈ slotsOf arenas index) : slot ≠ 0 := by
  obtain ⟨low, arena, place, _, rfl⟩ := mem_slotsOf.mp member
  have := invariant.nonnull _ arena
  omega

theorem Invariant.pool_of_live {block : Block}
    (held : block ∈ live) : ∃ pool, heap.pool (sizeClass block.2) = some pool ∧
      PoolFits heap.memory arenas (liveOf live (sizeClass block.2)) (sizeClass block.2) pool ∧
        block.1 ∈ slotsOf arenas (sizeClass block.2) := by
  have member : block.1 ∈ liveOf live (sizeClass block.2) := mem_liveOf.mpr ⟨block.2, held, rfl⟩
  cases present : heap.pool (sizeClass block.2) with
  | none =>
    rw [(invariant.closed _ present).2] at member
    cases member
  | some pool =>
    have fits := invariant.fits _ pool present
    exact ⟨pool, rfl, fits, fits.live_subset member⟩

/-- A call that changes one pool, and memory and arenas of its size class only. -/
theorem Invariant.set {arenas' : List (Nat × Nat)} {live' : List Block}
    (present : heap.pool index = some old)
    (apart : arenas'.Pairwise Apart) (nonnull : ∀ arena ∈ arenas', arena.2 ≠ 0)
    (fits : PoolFits later arenas' (liveOf live' index) index new)
    (kept : ∀ other, index ≠ other → ∀ slot ∈ slotsOf arenas other, later slot = heap.memory slot)
    (others : ∀ other, index ≠ other → arenasOf arenas' other = arenasOf arenas other ∧
      (liveOf live other).Perm (liveOf live' other)) :
    Invariant arenas' (Heap.setPool { heap with memory := later } index new) live' := by
  have table := pool_setPool present later new
  refine ⟨apart, nonnull, fun other pool found => ?_, fun other absent => ?_⟩
  · rw [table] at found
    split at found
    case isTrue same =>
      cases found
      exact same ▸ fits
    case isFalse differ =>
      have before := invariant.fits other pool found
      have moved := before.congr invariant.apart fun slot member _ => kept other differ slot member
      exact moved.transfer (others other differ).1 (others other differ).2
  rw [table] at absent
  split at absent
  case isTrue => cases absent
  case isFalse differ =>
    have before := invariant.closed other absent
    have same := (others other differ).2
    rw [before.2] at same
    exact ⟨(others other differ).1.trans before.1, same.symm.eq_nil⟩

theorem Invariant.free {block : Block}
    (freed : live.Perm (block :: rest)) : ∃ later, fixedAllocatorFree heap block = some later ∧
      Invariant arenas later rest ∧ ∀ index pool, heap.pool index = some pool →
        ∃ pool', later.pool index = some pool' ∧
          (pool'.newfree = pool.newfree ∧ pool'.newlast = pool.newlast) ∧
            (pool'.freeList = 0 ↔ pool.freeList = 0 ∧ sizeClass block.2 ≠ index) := by
  obtain ⟨pool, present, fits, member⟩ := invariant.pool_of_live (freed.symm.subset mem_cons_self)
  refine ⟨_, by rw [fixedAllocatorFree, present]; rfl, ?_, ?_⟩
  · refine invariant.set present invariant.apart invariant.nonnull ?_ ?_ ?_
    · refine fits.free invariant.apart (fun slot => invariant.slot_ne_zero) ?_
      have perm := liveOf_perm freed (sizeClass block.2)
      rwa [liveOf_cons, if_pos rfl] at perm
    · intro other differ slot elsewhere
      refine update_of_ne ?_ _ _
      rintro rfl
      rcases slots_apart invariant.apart member elsewhere with same | apart | apart
      · exact differ same.1
      all_goals
        have := slotSize_pos (sizeClass block.2)
        have := slotSize_pos other
        have : 0 < pointerSize := by decide
        omega
    · intro other differ
      have perm := liveOf_perm freed other
      rw [liveOf_cons, if_neg differ] at perm
      exact ⟨rfl, perm⟩
  · intro index other found
    rw [pool_setPool present]
    by_cases same : sizeClass block.2 = index
    · rw [if_pos same]
      rw [← same, present] at found
      cases found
      refine ⟨_, rfl, ⟨rfl, rfl⟩, iff_of_false ?_ fun spared => spared.2 same⟩
      exact invariant.slot_ne_zero member
    · rw [if_neg same]
      exact ⟨other, found, ⟨rfl, rfl⟩, by simp [same]⟩

theorem Invariant.collect {garbage : List Block}
    (freed : live.Perm (garbage ++ rest)) : ∃ later, collect heap garbage = some later ∧
      Invariant arenas later rest ∧ ∀ index pool, heap.pool index = some pool →
        ∃ pool', later.pool index = some pool' ∧
          (pool'.newfree = pool.newfree ∧ pool'.newlast = pool.newlast) ∧ (pool'.freeList = 0 ↔
            pool.freeList = 0 ∧ ∀ block ∈ garbage, sizeClass block.2 ≠ index) := by
  induction garbage generalizing heap live with
  | nil =>
    refine ⟨heap, rfl, ⟨invariant.apart, invariant.nonnull, fun index pool found => ?_,
      fun index absent => ?_⟩, fun index pool found => ⟨pool, found, ⟨rfl, rfl⟩, by simp⟩⟩
    · exact (invariant.fits index pool found).transfer rfl (liveOf_perm freed index)
    have closed := invariant.closed index absent
    have same := liveOf_perm freed index
    rw [closed.2] at same
    exact ⟨closed.1, same.symm.eq_nil⟩
  | cons block garbage ih =>
    obtain ⟨middle, run, kept, lists⟩ := invariant.free freed
    obtain ⟨later, runs, last, lists'⟩ := ih kept (List.Perm.refl _)
    refine ⟨later, ?_, last, fun index pool found => ?_⟩
    · rw [Gc.collect, foldlM_cons, run]
      exact runs
    obtain ⟨pool', found', free, first⟩ := lists index pool found
    obtain ⟨pool'', found'', free', second⟩ := lists' index pool' found'
    refine ⟨pool'', found'', ⟨free'.1.trans free.1, free'.2.trans free.2⟩, ?_⟩
    rw [second, first, forall_mem_cons, and_assoc]

theorem Invariant.openPool (index : Nat) :
    Invariant arenas { heap with pools := openPool heap.pools index } live := by
  refine ⟨invariant.apart, invariant.nonnull, fun other pool found => ?_, fun other absent => ?_⟩
  · rw [pool_openPool] at found
    split at found
    case isFalse => exact invariant.fits other pool found
    case isTrue same =>
      subst same
      cases present : heap.pool index with
      | some pool =>
        rw [present] at found
        cases found
        exact invariant.fits index _ present
      | none =>
        rw [present] at found
        cases found
        obtain ⟨noArena, noBlock⟩ := invariant.closed index present
        have new := objectSize_poolNew index
        rw [noBlock]
        refine ⟨new, rfl, by rw [noArena]; rfl, by simp [noArena], [], 0, .nil, by simp [poolNew],
          ?_,
          rfl⟩
        simp [slotsOf, noArena, slots]
  · rw [pool_openPool] at absent
    split at absent
    case isTrue => cases absent
    case isFalse => exact invariant.closed other absent

theorem Invariant.delivered {newArena : Nat}
    (size : pool.objectSize = slotSize index) (count : pool.objectsPerAlloc = perArena index)
    (delivered : Delivered heap pool newArena) :
    ∀ arena ∈ arenas, Apart arena (index, newArena + arenaHeader) := by
  have whole : ∀ pool, arenaHeader + pool.objectSize * pool.objectsPerAlloc ≤ arenaSize pool := by
    intro pool
    simp only [arenaSize]
    split <;> omega
  rintro ⟨other, low⟩ member
  have belongs : low ∈ arenasOf arenas other := mem_arenasOf.mpr member
  cases present : heap.pool other with
  | none =>
    rw [(invariant.closed other present).1] at belongs
    cases belongs
  | some owner =>
    have fits := invariant.fits other owner present
    have room := whole pool
    have room' := whole owner
    rw [size, count] at room
    rw [fits.size, fits.count] at room'
    rcases delivered other owner present (low, low + slotSize other * perArena other)
      (by rw [fits.bounds]; exact mem_map_of_mem belongs) with before | behind
    · refine .inr ?_
      dsimp only at before ⊢
      omega
    refine .inl ?_
    dsimp only at behind ⊢
    omega

/-- A call that is answered out of a pool without asking the system. -/
theorem Invariant.hand_out {size item : Nat} (present : heap.pool (sizeClass size) = some old)
    (fits : PoolFits heap.memory arenas (item :: liveOf live (sizeClass size)) (sizeClass size)
      new) : Invariant arenas (heap.setPool (sizeClass size) new) ((item, size) :: live) := by
  refine invariant.set present invariant.apart invariant.nonnull ?_ (fun _ _ _ _ => rfl) ?_
  · rw [liveOf_cons, if_pos rfl]
    exact fits
  intro other differ
  rw [liveOf_cons, if_neg differ]
  exact ⟨rfl, .refl _⟩

/-- What an allocation keeps and when it reuses. -/
theorem Invariant.allocate (size newArena : Nat)
    {garbage : List Block} (freed : live.Perm (garbage ++ rest)) :
    ∃ got, fixedAllocatorAllocate heap size garbage newArena = some got ∧
      ((∀ pool, got.extended = some pool → Delivered heap pool newArena) →
        (got.extended = none → garbage = []) →
          ∃ arenas', Invariant arenas' got.heap ((got.item, size) :: rest)) ∧
        ∀ pool, got.extended = some pool →
          (pool.freeList = 0 ↔ ∀ block ∈ garbage, sizeClass block.2 ≠ sizeClass size) := by
  have opened := invariant.openPool (sizeClass size)
  have present := pool_openPool heap (sizeClass size) (sizeClass size)
  rw [if_pos rfl] at present
  generalize isHeap : ({ heap with pools := Gc.openPool heap.pools (sizeClass size) } : Heap) =
    start at opened present
  generalize (heap.pool (sizeClass size)).getD (poolNew (slotSize (sizeClass size))) =
    pool at present
  rw [fixedAllocatorAllocate, isHeap, poolAllocate, present]
  simp only [Option.bind_eq_bind, Option.bind_some]
  have unchanged (idle : garbage = []) : Invariant arenas start rest := by
    subst idle
    obtain ⟨_, run, kept, _⟩ := opened.collect freed
    cases run
    exact kept
  split
  case isTrue nonempty =>
    refine ⟨_, rfl, fun _ idle => ⟨arenas, ?_⟩, fun pool taken => by cases taken⟩
    have kept := unchanged (idle rfl)
    exact kept.hand_out present ((kept.fits _ pool present).getFreeListItem nonempty)
  case isFalse empty =>
    split
    case isFalse more =>
      refine ⟨_, rfl, fun _ idle => ⟨arenas, ?_⟩, fun pool taken => by cases taken⟩
      have kept := unchanged (idle rfl)
      exact kept.hand_out present
        ((kept.fits _ pool present).getNewfreeListItem (Nat.not_le.mp more))
    case isTrue full =>
      obtain ⟨later, run, kept, lists⟩ := opened.collect freed
      obtain ⟨pool', present', ⟨free, last⟩, reused⟩ := lists _ pool present
      rw [← free, ← last] at full
      rw [run, Option.bind_some, present', Option.bind_some]
      refine ⟨_, rfl, fun delivered _ => ?_, fun pool taken => ?_⟩
      · have grown := (kept.fits _ pool' present').newArena full newArena
        have apart := invariant.delivered (kept.fits _ pool' present').size
          (kept.fits _ pool' present').count (delivered pool' rfl)
        refine ⟨arenas ++ [(sizeClass size, newArena + arenaHeader)],
          kept.set present' ?_ ?_ ?_ (fun _ _ _ _ => rfl) ?_⟩
        · refine pairwise_append.mpr ⟨kept.apart, pairwise_singleton _ _, ?_⟩
          intro arena member new isNew
          rw [mem_singleton.mp isNew]
          exact apart arena member
        · intro arena member
          rcases mem_append.mp member with old | isNew
          · exact kept.nonnull arena old
          · rw [mem_singleton.mp isNew]
            exact Nat.succ_ne_zero _
        · rw [liveOf_cons, if_pos rfl]
          refine grown.getNewfreeListItem ?_
          have room := Nat.mul_pos (Nat.lt_of_lt_of_le (by decide) (slotSize_pos (sizeClass size)))
            (perArena_pos (sizeClass size))
          rw [← (kept.fits _ pool' present').size, ← (kept.fits _ pool' present').count] at room
          exact Nat.lt_add_of_pos_right room
        · intro other differ
          rw [liveOf_cons, if_neg differ, arenasOf_append, if_neg differ, append_nil]
          exact ⟨rfl, .refl _⟩
      · cases taken
        rw [reused]
        exact and_iff_right (not_not.mp empty)

end

end

theorem invariant_new (memory : Nat → Nat) : Invariant [] ⟨memory, []⟩ [] := by
  refine ⟨.nil, by simp, fun index pool found => ?_, fun _ _ => ⟨rfl, rfl⟩⟩
  cases found

theorem Invariant.write {heap : Heap} {live : List Block} (invariant : Invariant arenas heap live)
    (inside : ∀ address, (∀ block ∈ live,
      address + pointerSize ≤ block.1 ∨ block.1 + block.2 ≤ address) →
        memory address = heap.memory address) : Invariant arenas { heap with memory } live := by
  refine ⟨invariant.apart, invariant.nonnull, fun index pool found => ?_, invariant.closed⟩
  refine (invariant.fits index pool found).congr invariant.apart fun slot member unheld => ?_
  refine inside slot fun block held => ?_
  obtain ⟨_, _, _, owned⟩ := invariant.pool_of_live held
  have word := slotSize_pos index
  have room := le_slotSize block.2
  rcases slots_apart invariant.apart member owned with ⟨same, rfl⟩ | before | behind
  · exact absurd (mem_liveOf.mpr ⟨block.2, held, same.symm⟩) unheld
  · exact .inl (by omega)
  · exact .inr (by omega)

theorem Invariant.step {s after : State} {event : Event}
    (invariant : Invariant arenas s.heap s.live)
    (step : Step s event after) : (∃ arenas', Invariant arenas' after.heap after.live) ∧
      (event.Reuses ↔ event.SparesItsPool) := by
  cases step with
  | allocate size newArena garbage rest got asked runs delivered idle freed =>
    obtain ⟨got', runs', kept, reuses⟩ := invariant.allocate size newArena freed
    obtain rfl : got = got' := Option.some.inj (runs.symm.trans runs')
    refine ⟨kept delivered idle, ?_⟩
    cases extended : got.extended with
    | none => exact Iff.rfl
    | some pool => exact reuses pool extended
  | free block rest heap runs freed =>
    obtain ⟨later, runs', kept, _⟩ := invariant.free freed
    obtain rfl : heap = later := Option.some.inj (runs.symm.trans runs')
    exact ⟨⟨arenas, kept⟩, Iff.rfl⟩
  | write memory inside => exact ⟨⟨arenas, invariant.write inside⟩, Iff.rfl⟩

theorem Run.invariant {events : List Event} {s : State} (run : Run events s) :
    (∃ arenas, Invariant arenas s.heap s.live) ∧
      ∀ event ∈ events, (event.Reuses ↔ event.SparesItsPool) := by
  induction run with
  | new memory => exact ⟨⟨[], invariant_new memory⟩, by simp⟩
  | step _ last ih =>
    obtain ⟨⟨arenas, invariant⟩, earlier⟩ := ih
    obtain ⟨kept, here⟩ := invariant.step last
    refine ⟨kept, fun event member => ?_⟩
    rcases mem_append.mp member with before | isLast
    · exact earlier event before
    · rwa [mem_singleton.mp isLast]

end RakudoStar.Gc
