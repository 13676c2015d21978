import RakudoStar.Parrot.HashInvariant

/-!
# Expanding the table

`expand_hash` copies the block, so its links still point into the old one, and splits every
chain in place. Relocation is described from where the rest of the chain starts: earlier links
are not read again.
-/

namespace RakudoStar.Parrot

open Foundation List Nat

variable {W : Type} {rt : Runtime W} {place : Place} (count : Nat) (oldSize : Nat) {cell : Nat}

/-- `todo` are linked by old pointers from `place` on, `moved` are in the upper slot. -/
structure ChainPending (rt : Runtime W) (oldBlock oldSize i : Nat) (place : Place)
    (todo moved : List Nat) (h : Hash W) : Prop where
  pending : Segment (Pointer.mk oldBlock) h.nextOf (h.readPlace place) todo none
  upper : Segment h.ref h.nextOf (h.index (i + oldSize)) moved none
  nodup : (todo ++ moved).Nodup
  inside : ∀ cell ∈ todo, cell < oldSize
  locations : ∀ cell ∈ todo, h.location rt cell = i ∨ h.location rt cell = i + oldSize
  placeSlot : place ≠ .slot (i + oldSize)
  placeNext : ∀ cell ∈ todo ++ moved, place ≠ .next cell

/-- From `place` on only the cells that stay are left, linked by new pointers. -/
structure ChainRelocated (rt : Runtime W) (oldSize i : Nat) (place : Place)
    (todo moved : List Nat) (before after : Hash W) : Prop where
  onlyLinks : before.OnlyLinks after
  stay : ∃ stay, Segment before.ref after.nextOf (after.readPlace place) stay none ∧
    stay.Perm (todo.filter (fun cell => before.location rt cell = i))
  move : ∃ move, Segment before.ref after.nextOf (after.index (i + oldSize)) move none ∧
    move.Perm (moved ++ todo.filter (fun cell => before.location rt cell = i + oldSize))
  nextFrame : ∀ cell, cell ∉ todo → place ≠ .next cell → after.nextOf cell = before.nextOf cell
  indexFrame : ∀ j, j ≠ i + oldSize → place ≠ .slot j → after.index j = before.index j

theorem relocated?_mk {oldBlock oldSize : Nat} (inside : cell < oldSize) :
    relocated? oldBlock oldSize ⟨oldBlock, cell⟩ = some cell := by
  simp [relocated?, inside]

theorem onlyLinks_moveBucket (h : Hash W) (place : Place) (cell newLoc : Nat) :
    h.OnlyLinks (moveBucket h place cell newLoc) :=
  ((Hash.OnlyLinks.writePlace ..).trans (Hash.OnlyLinks.setNext ..)).trans
    (Hash.OnlyLinks.setIndex ..)

theorem nextOf_moveBucket_of_ne (h : Hash W) {other : Nat}
    (newLoc : Nat) (differ : other ≠ cell) (notPlace : place ≠ .next other) :
    (moveBucket h place cell newLoc).nextOf other = h.nextOf other := by
  rw [moveBucket, Hash.nextOf_setIndex, Hash.nextOf_setNext, if_neg differ,
    Hash.nextOf_writePlace, if_neg notPlace]

theorem nextOf_moveBucket_self (h : Hash W) {newLoc : Nat} (cell : Nat)
    (notPlace : place ≠ .slot newLoc) :
    (moveBucket h place cell newLoc).nextOf cell = h.index newLoc := by
  rw [moveBucket, Hash.nextOf_setIndex, Hash.nextOf_setNext, if_pos rfl,
    Hash.index_writePlace, if_neg notPlace]

theorem index_moveBucket_self (h : Hash W) (place : Place) (cell newLoc : Nat) :
    (moveBucket h place cell newLoc).index newLoc = some (h.ref cell) := by
  rw [moveBucket, Hash.index_setIndex, if_pos rfl]

theorem index_moveBucket_of_ne (h : Hash W) {newLoc j : Nat} (cell : Nat)
    (differ : j ≠ newLoc) (notPlace : place ≠ .slot j) :
    (moveBucket h place cell newLoc).index j = h.index j := by
  rw [moveBucket, Hash.index_setIndex, if_neg differ, Hash.index_setNext,
    Hash.index_writePlace, if_neg notPlace]

theorem readPlace_moveBucket (h : Hash W) {newLoc : Nat}
    (notSlot : place ≠ .slot newLoc) (notCell : place ≠ .next cell) :
    (moveBucket h place cell newLoc).readPlace place = h.nextOf cell := by
  cases place with
  | slot j =>
    have differ : j ≠ newLoc := fun same => notSlot (congrArg Place.slot same)
    simp [moveBucket, Hash.index_setIndex, Hash.index_writePlace, differ]
  | next other =>
    have differ : other ≠ cell := fun same => notCell (congrArg Place.next same)
    simp [moveBucket, Hash.nextOf_setNext, Hash.nextOf_writePlace, differ]

variable {h : Hash W}

section

variable {oldBlock oldSize i : Nat} {todo moved : List Nat}

section

variable (ready : ChainPending rt oldBlock oldSize i place (cell :: todo) moved h)

include ready

theorem ChainPending.stay : ChainPending rt oldBlock oldSize i (.next cell) todo moved
      (h.writePlace place (some (h.ref cell))) := by
  have only := Hash.OnlyLinks.writePlace h place (some (h.ref cell))
  have nodup := nodup_cons.mp ready.nodup
  have unchanged : ∀ other ∈ cell :: todo ++ moved,
      h.nextOf other = (h.writePlace place (some (h.ref cell))).nextOf other := by
    intro other mem
    rw [Hash.nextOf_writePlace, if_neg (ready.placeNext other mem)]
  constructor
  · rw [Hash.readPlace_next, ← unchanged cell (mem_cons_self ..)]
    apply Segment.congr (fun _ _ => rfl) _ ready.pending.2
    exact fun other mem => unchanged other (mem_cons_of_mem _ (mem_append_left _ mem))
  · rw [Hash.index_writePlace, if_neg ready.placeSlot, only.ref]
    apply Segment.congr (fun _ _ => rfl) _ ready.upper
    exact fun other mem => unchanged other (mem_cons_of_mem _ (mem_append_right _ mem))
  · exact nodup.2
  · exact (forall_mem_cons.mp ready.inside).2
  · intro other mem
    rw [only.location]
    exact ready.locations other (mem_cons_of_mem _ mem)
  · exact Place.noConfusion
  · intro other mem samePlace
    cases samePlace
    exact nodup.1 mem

/-- The cell leaves the chain: it is unlinked and pushed on the upper slot. -/
theorem ChainPending.move : ChainPending rt oldBlock oldSize i place todo (cell :: moved)
      (moveBucket h place cell (i + oldSize)) := by
  have only := onlyLinks_moveBucket h place cell (i + oldSize)
  have nodup := nodup_cons.mp ready.nodup
  have unchanged : ∀ other ∈ todo ++ moved,
      h.nextOf other = (moveBucket h place cell (i + oldSize)).nextOf other := by
    intro other mem
    have differ : other ≠ cell := by
      rintro rfl
      exact nodup.1 mem
    rw [nextOf_moveBucket_of_ne h _ differ (ready.placeNext other (mem_cons_of_mem _ mem))]
  constructor
  · rw [readPlace_moveBucket h ready.placeSlot (ready.placeNext cell (mem_cons_self ..))]
    apply Segment.congr (fun _ _ => rfl) _ ready.pending.2
    exact fun other mem => unchanged other (mem_append_left _ mem)
  · rw [index_moveBucket_self, only.ref]
    apply And.intro rfl
    rw [nextOf_moveBucket_self h cell ready.placeSlot]
    apply Segment.congr (fun _ _ => rfl) _ ready.upper
    exact fun other mem => unchanged other (mem_append_right _ mem)
  · exact perm_middle.nodup_iff.mpr ready.nodup
  · exact (forall_mem_cons.mp ready.inside).2
  · intro other mem
    rw [only.location]
    exact ready.locations other (mem_cons_of_mem _ mem)
  · exact ready.placeSlot
  · intro other mem
    apply ready.placeNext other
    exact perm_middle.mem_iff.mp mem

end

end

/-- Relocating one chain, by recursion on the cells that are left. -/
theorem relocateChain_spec {oldBlock oldSize i : Nat} (positive : 0 < oldSize)
    (todo : List Nat) : ∀ {fuel : Nat} {place : Place} {moved : List Nat} {h : Hash W},
      todo.length < fuel → ChainPending rt oldBlock oldSize i place todo moved h →
      ∃ after, relocateChain rt oldBlock oldSize i fuel place h = some after ∧
        ChainRelocated rt oldSize i place todo moved h after := by
  induction todo with
  | nil =>
    intro fuel place moved h enough ready
    obtain ⟨fuel, rfl⟩ := exists_eq_succ_of_ne_zero (Nat.pos_iff_ne_zero.mp enough)
    have ends : h.readPlace place = none := ready.pending
    apply Exists.intro h
    constructor
    · rw [relocateChain, ends]
    exact {
      onlyLinks := Hash.OnlyLinks.refl h
      stay := ⟨[], ends, List.Perm.nil⟩
      move := ⟨moved, ready.upper, by simp⟩
      nextFrame := fun _ _ _ => rfl
      indexFrame := fun _ _ _ => rfl }
  | cons cell todo ih =>
    intro fuel place moved h enough ready
    obtain ⟨fuel, rfl⟩ := exists_eq_succ_of_ne_zero (Nat.ne_zero_of_lt enough)
    have enoughRest : todo.length < fuel := by simpa using enough
    have linkEq : h.readPlace place = some ⟨oldBlock, cell⟩ := ready.pending.1
    have inside := ready.inside cell (mem_cons_self ..)
    have notCell := ready.placeNext cell (mem_cons_self ..)
    rw [relocateChain, linkEq]
    simp only [relocated?_mk inside, Option.bind_eq_bind, Option.bind_some]
    have locationEq : rt.keyHash h.keyType (h.buckets cell).key &&& h.mask =
        h.location rt cell := rfl
    rw [locationEq]
    rcases ready.locations cell (mem_cons_self ..) with stays | moves
    · rw [stays, if_neg (fun differ => differ rfl)]
      obtain ⟨after, run, relocated⟩ := ih enoughRest ready.stay
      have only := Hash.OnlyLinks.writePlace h place (some (h.ref cell))
      have sameLocation : (h.writePlace place (some (h.ref cell))).location rt =
          h.location rt := funext (only.location rt)
      obtain ⟨stay, staySegment, stayPerm⟩ := relocated.stay
      obtain ⟨move, moveSegment, movePerm⟩ := relocated.move
      rw [only.ref] at staySegment moveSegment
      rw [sameLocation] at stayPerm movePerm
      have differ : i ≠ i + oldSize := by omega
      have placeKept : after.readPlace place = some (h.ref cell) := by
        rw [← Hash.readPlace_writePlace h place (some (h.ref cell))]
        cases place with
        | slot j =>
          have notUpper : j ≠ i + oldSize := fun same => ready.placeSlot (congrArg Place.slot same)
          exact relocated.indexFrame j notUpper Place.noConfusion
        | next other =>
          have notTodo : other ∉ todo := fun mem =>
            ready.placeNext other (mem_append_left _ (mem_cons_of_mem _ mem)) rfl
          apply relocated.nextFrame other notTodo
          exact fun same => notCell same.symm
      refine ⟨after, run, ⟨only.trans relocated.onlyLinks, ?_, ?_, ?_, ?_⟩⟩
      · apply Exists.intro (cell :: stay)
        constructor
        · exact ⟨placeKept, staySegment⟩
        · rw [filter_cons_of_pos (by simpa using stays)]
          exact stayPerm.cons cell
      · apply Exists.intro move
        apply And.intro moveSegment
        rw [filter_cons_of_neg (by simpa [stays] using differ)]
        exact movePerm
      · intro other notIn notPlace
        have apart : cell ≠ other := fun same =>
          notIn (same ▸ mem_cons_self ..)
        have notTodo : other ∉ todo := fun mem => notIn (mem_cons_of_mem _ mem)
        rw [relocated.nextFrame other notTodo (by simpa using apart),
          Hash.nextOf_writePlace, if_neg notPlace]
      · intro j notUpper notPlace
        rw [relocated.indexFrame j notUpper Place.noConfusion, Hash.index_writePlace,
          if_neg notPlace]
    · have differ : i ≠ i + oldSize := by omega
      rw [moves, if_pos differ]
      obtain ⟨after, run, relocated⟩ := ih enoughRest ready.move
      have only := onlyLinks_moveBucket h place cell (i + oldSize)
      obtain ⟨stay, staySegment, stayPerm⟩ := relocated.stay
      obtain ⟨move, moveSegment, movePerm⟩ := relocated.move
      rw [only.ref] at staySegment moveSegment
      rw [funext (only.location rt)] at stayPerm movePerm
      refine ⟨after, run, ⟨only.trans relocated.onlyLinks, ?_, ?_, ?_, ?_⟩⟩
      · apply Exists.intro stay
        apply And.intro staySegment
        rw [filter_cons_of_neg (by simpa [moves] using differ.symm)]
        exact stayPerm
      · apply Exists.intro move
        apply And.intro moveSegment
        rw [filter_cons_of_pos (by simpa using moves)]
        exact movePerm.trans perm_middle.symm
      · intro other notIn notPlace
        have apart : other ≠ cell := fun same =>
          notIn (same ▸ mem_cons_self ..)
        have notTodo : other ∉ todo := fun mem => notIn (mem_cons_of_mem _ mem)
        rw [relocated.nextFrame other notTodo notPlace, nextOf_moveBucket_of_ne h _ apart notPlace]
      · intro j notUpper notPlace
        rw [relocated.indexFrame j notUpper notPlace,
          index_moveBucket_of_ne h cell notUpper notPlace]

section

@[simp]
theorem mask_copyDoubled : (copyDoubled rt h).mask = (h.mask + 1) * 2 - 1 := rfl

theorem buckets_copyDoubled (bound : cell ≤ h.mask) :
    (copyDoubled rt h).buckets cell = h.buckets cell :=
  if_pos (lt_succ_of_le bound)

theorem entry_copyDoubled (bound : cell ≤ h.mask) :
    (copyDoubled rt h).entry cell = h.entry cell := by
  rw [Hash.entry, Hash.entry, buckets_copyDoubled bound]

theorem nextOf_copyDoubled (bound : cell ≤ h.mask) :
    (copyDoubled rt h).nextOf cell = h.nextOf cell := by
  rw [Hash.nextOf, Hash.nextOf, buckets_copyDoubled bound]

theorem keyOf_copyDoubled_of_lt (above : h.mask < cell) :
    (copyDoubled rt h).keyOf cell = rt.null := by
  have cleared : (copyDoubled rt h).buckets cell = ⟨none, rt.null, rt.null⟩ := if_neg (by omega)
  rw [Hash.keyOf, cleared]

end

variable {live : List Nat}

section

variable [DecidableEq W]

/-- In the doubled table a bucket belongs to its old slot or to the slot the old
size above it. -/
theorem location_copyDoubled (layout : Layout rt h [] live)
    (bound : cell ≤ h.mask) : (copyDoubled rt h).location rt cell = h.location rt cell ∨
      (copyDoubled rt h).location rt cell = h.location rt cell + (h.mask + 1) := by
  have sameKey : (copyDoubled rt h).keyOf cell = h.keyOf cell :=
    congrArg Prod.fst (entry_copyDoubled bound)
  have double := and_mask_double layout.power (rt.keyHash h.keyType (h.keyOf cell))
  simp only [Hash.location, sameKey, mask_copyDoubled]
  exact double

/-- The first `k` slots of the index have been relocated. -/
structure SlotsRelocated (rt : Runtime W) (source : Hash W) (live : List Nat) (k : Nat)
    (h : Hash W) : Prop where
  onlyLinks : (copyDoubled rt source).OnlyLinks h
  low : ∀ i < k, ∃ chain, Segment h.ref h.nextOf (h.index i) chain none ∧
    chain.Perm (live.filter (fun cell => (copyDoubled rt source).location rt cell = i))
  high : ∀ i < k, ∃ chain,
    Segment h.ref h.nextOf (h.index (i + (source.mask + 1))) chain none ∧
    chain.Perm (live.filter (fun cell =>
      (copyDoubled rt source).location rt cell = i + (source.mask + 1)))
  pending : ∀ i, k ≤ i → i ≤ source.mask → ∃ chain,
    Segment (Pointer.mk source.block) h.nextOf (h.index i) chain none ∧
    chain.Perm (live.filter (fun cell => source.location rt cell = i))
  upper : ∀ i, k ≤ i → i ≤ source.mask → h.index (i + (source.mask + 1)) = none

theorem slotsRelocated_zero (layout : Layout rt h [] live) :
    SlotsRelocated rt h live 0 (copyDoubled rt h) where
  onlyLinks := Hash.OnlyLinks.refl _
  low := fun i below => absurd below (not_lt_zero i)
  high := fun i below => absurd below (not_lt_zero i)
  pending := by
    intro i _ bound
    obtain ⟨chain, segment, perm⟩ := layout.chains i bound
    apply Exists.intro chain
    have indexEq : (copyDoubled rt h).index i = h.index i := if_pos (lt_succ_of_le bound)
    constructor
    · rw [indexEq]
      apply Segment.congr (fun _ _ => rfl) _ segment
      intro cell mem
      have inLive := (Layout.chain_mem perm |>.mp mem).1
      exact (nextOf_copyDoubled (layout.live_le inLive)).symm
    · exact perm
  upper := by
    intro i _ _
    exact if_neg (by omega)

theorem filter_filter_of_imp {cells : List Nat} {inner outer : Nat → Bool}
    (imp : ∀ cell ∈ cells, outer cell = true → inner cell = true) :
    (cells.filter inner).filter outer = cells.filter outer := by
  rw [filter_filter]
  apply filter_congr
  intro cell mem
  cases test : outer cell with
  | false => rfl
  | true => simp [imp cell mem test]

theorem SlotsRelocated.step (layout : Layout rt h [] live) {k : Nat} {current : Hash W}
    (bound : k ≤ h.mask) (state : SlotsRelocated rt h live k current) :
    ∃ after, relocateChain rt h.block (h.mask + 1) k (h.mask + 2) (.slot k) current =
        some after ∧ SlotsRelocated rt h live (k + 1) after := by
  obtain ⟨todo, segment, perm⟩ := state.pending k (Nat.le_refl k) bound
  have inTodo : ∀ cell, cell ∈ todo ↔ cell ∈ live ∧ h.location rt cell = k :=
    fun cell => Layout.chain_mem perm
  have newLocation : current.location rt = (copyDoubled rt h).location rt :=
    funext (state.onlyLinks.location rt)
  have split : ∀ cell ∈ live, (copyDoubled rt h).location rt cell = h.location rt cell ∨
      (copyDoubled rt h).location rt cell = h.location rt cell + (h.mask + 1) :=
    fun cell mem => location_copyDoubled layout (layout.live_le mem)
  have oldBound : ∀ cell, h.location rt cell ≤ h.mask := Layout.location_le
  have ready : ChainPending rt h.block (h.mask + 1) k (.slot k) todo [] current := by
    constructor
    · exact segment
    · exact state.upper k (Nat.le_refl k) bound
    · rw [append_nil]
      exact perm.nodup_iff.mpr (layout.live_nodup.filter _)
    · intro cell mem
      have := layout.live_le ((inTodo cell).mp mem).1
      omega
    · intro cell mem
      have known := (inTodo cell).mp mem
      rw [newLocation]
      have options := split cell known.1
      rw [known.2] at options
      exact options
    · intro same
      cases same
    · exact fun _ _ => Place.noConfusion
  have enough : todo.length < h.mask + 2 := by
    have := layout.chain_length_le perm
    omega
  obtain ⟨after, run, relocated⟩ := relocateChain_spec (succ_pos h.mask) todo enough ready
  have refEq : after.ref = current.ref := relocated.onlyLinks.ref
  -- a chain of another slot shares no cell with the relocated one
  have frame : ∀ {chain : List Nat} {j : Nat} {ref : Nat → Pointer}, j ≠ k + (h.mask + 1) →
      j ≠ k → (∀ cell ∈ chain, h.location rt cell ≠ k) →
      Segment ref current.nextOf (current.index j) chain none →
      Segment ref after.nextOf (after.index j) chain none := by
    intro chain j ref notUpper notLower apart chainSegment
    rw [relocated.indexFrame j notUpper (by simpa using notLower.symm)]
    apply Segment.congr (fun _ _ => rfl) _ chainSegment
    intro cell mem
    have notTodo : cell ∉ todo := fun inside => apart cell mem ((inTodo cell).mp inside).2
    exact (relocated.nextFrame cell notTodo Place.noConfusion).symm
  -- the chain of a new slot is what the relocation made of it, or what it was
  have chainOf : ∀ {i j : Nat}, i < k + 1 → (j = i ∨ j = i + (h.mask + 1)) →
      (i = k → ∃ chain, Segment current.ref after.nextOf (after.index j) chain none ∧
        chain.Perm (todo.filter fun cell => (copyDoubled rt h).location rt cell = j)) →
      (i < k → ∃ chain, Segment current.ref current.nextOf (current.index j) chain none ∧
        chain.Perm (live.filter fun cell => (copyDoubled rt h).location rt cell = j)) →
      ∃ chain, Segment after.ref after.nextOf (after.index j) chain none ∧
        chain.Perm (live.filter fun cell => (copyDoubled rt h).location rt cell = j) := by
    intro i j below slot last earlier
    rw [refEq]
    have oldSlot : ∀ cell ∈ live, (copyDoubled rt h).location rt cell = j →
        h.location rt cell = i := by
      intro cell mem located
      have options := split cell mem
      have := oldBound cell
      omega
    rcases Nat.lt_or_eq_of_le (le_of_lt_succ below) with less | rfl
    · obtain ⟨chain, chainSegment, chainPerm⟩ := earlier less
      refine ⟨chain, frame (by omega) (by omega) (fun cell mem => ?_) chainSegment, chainPerm⟩
      have known := mem_filter.mp (chainPerm.mem_iff.mp mem)
      rw [oldSlot cell known.1 (of_decide_eq_true known.2)]
      exact Nat.ne_of_lt less
    obtain ⟨chain, chainSegment, chainPerm⟩ := last rfl
    refine ⟨chain, chainSegment, chainPerm.trans ((perm.filter _).trans ?_)⟩
    rw [filter_filter_of_imp]
    exact fun cell mem located =>
      decide_eq_true (oldSlot cell mem (of_decide_eq_true located))
  refine ⟨after, run, state.onlyLinks.trans relocated.onlyLinks, ?_, ?_, ?_, ?_⟩
  · intro i below
    refine chainOf below (.inl rfl) (fun last => ?_) (state.low i)
    rw [last, ← newLocation]
    exact relocated.stay
  · intro i below
    refine chainOf below (.inr rfl) (fun last => ?_) (state.high i)
    rw [last, ← newLocation]
    exact relocated.move
  · intro i above below
    obtain ⟨chain, chainSegment, chainPerm⟩ := state.pending i (by omega) below
    refine ⟨chain, frame (by omega) (by omega) (fun cell mem => ?_) chainSegment, chainPerm⟩
    have known := Layout.chain_mem chainPerm |>.mp mem
    omega
  · intro i above below
    rw [relocated.indexFrame _ (by omega) (by simp; omega)]
    exact state.upper i (by omega) below

theorem relocateSlots_spec (layout : Layout rt h [] live) (count : Nat) :
    ∀ {k : Nat} {current : Hash W}, k + count = h.mask + 1 → SlotsRelocated rt h live k current →
      ∃ after, relocateSlots rt h.block (h.mask + 1) (range' k count) current =
          some after ∧ SlotsRelocated rt h live (h.mask + 1) after := by
  induction count with
  | zero =>
    intro k current total state
    have kEq : k = h.mask + 1 := by omega
    subst kEq
    exact ⟨current, rfl, state⟩
  | succ count ih =>
    intro k current total state
    obtain ⟨middle, run, stateNext⟩ := state.step layout (by omega)
    obtain ⟨after, rest, done⟩ := ih (by omega) stateNext
    apply Exists.intro after
    constructor
    · rw [range'_succ, relocateSlots, run]
      exact rest
    · exact done

end

theorem onlyLinks_linkRun : ∀ (cell : Nat) (h : Hash W), h.OnlyLinks (linkRun count cell h) := by
  induction count with
  | zero => exact fun cell h => Hash.OnlyLinks.setNext h cell none
  | succ count ih =>
    exact fun cell h => (Hash.OnlyLinks.setNext ..).trans (ih ..)

theorem index_linkRun : ∀ (cell : Nat) (h : Hash W), (linkRun count cell h).index = h.index := by
  induction count with
  | zero => exact fun _ _ => rfl
  | succ count ih =>
    exact fun cell h => (ih ..).trans (Hash.index_setNext ..)

theorem nextOf_linkRun_of_lt : ∀ {cell other : Nat} (h : Hash W), other < cell →
      (linkRun count cell h).nextOf other = h.nextOf other := by
  induction count with
  | zero =>
    intro cell other h below
    rw [linkRun, Hash.nextOf_setNext, if_neg (Nat.ne_of_lt below)]
  | succ count ih =>
    intro cell other h below
    rw [linkRun, ih _ (lt_succ_of_lt below), Hash.nextOf_setNext, if_neg (Nat.ne_of_lt below)]

theorem segment_linkRun : ∀ (cell : Nat) (h : Hash W),
      Segment h.ref (linkRun count cell h).nextOf (some (h.ref cell))
        (range' cell (count + 1)) none := by
  induction count with
  | zero =>
    intro cell h
    constructor
    · rfl
    · rw [linkRun, Hash.nextOf_setNext, if_pos rfl]
      rfl
  | succ count ih =>
    intro cell h
    have rest := ih (cell + 1) (h.setNext cell (some (h.ref (cell + 1))))
    have link : (linkRun (count + 1) cell h).nextOf cell = some (h.ref (cell + 1)) := by
      rw [linkRun, nextOf_linkRun_of_lt _ _ (lt_succ_self cell), Hash.nextOf_setNext, if_pos rfl]
    rw [range'_succ]
    apply And.intro rfl
    rw [link]
    exact rest

theorem entry_linkFree (h : Hash W) (cell : Nat) : (linkFree oldSize h).entry cell = h.entry cell :=
  (onlyLinks_linkRun ..).entry cell

theorem index_linkFree (h : Hash W) : (linkFree oldSize h).index = h.index := index_linkRun ..

theorem ref_linkFree (h : Hash W) : (linkFree oldSize h).ref = h.ref :=
  (onlyLinks_linkRun (oldSize - 1) oldSize h).ref

theorem location_linkFree (h : Hash W) : (linkFree oldSize h).location rt = h.location rt :=
  funext ((onlyLinks_linkRun (oldSize - 1) oldSize h).location rt)

theorem nextOf_linkFree_of_lt {oldSize : Nat} (h : Hash W) (below : cell < oldSize) :
    (linkFree oldSize h).nextOf cell = h.nextOf cell := nextOf_linkRun_of_lt _ h below

theorem freeSegment_linkFree {oldSize : Nat} (h : Hash W) (positive : 0 < oldSize) :
    Segment (linkFree oldSize h).ref (linkFree oldSize h).nextOf
      (linkFree oldSize h).freeList (range' oldSize oldSize) none := by
  have segment := segment_linkRun (oldSize - 1) oldSize h
  rw [Nat.sub_add_cancel positive] at segment
  rw [ref_linkFree]
  exact segment

section

variable [DecidableEq W] {h moved : Hash W}

/-- When every chain is relocated the buckets of the upper half are free. -/
theorem SlotsRelocated.layout (layout : Layout rt h [] live)
    (state : SlotsRelocated rt h live (h.mask + 1) moved) :
    Layout rt (linkFree (h.mask + 1) moved) (range' (h.mask + 1) (h.mask + 1)) live := by
  have maskEq : (linkFree (h.mask + 1) moved).mask = (h.mask + 1) * 2 - 1 :=
    (onlyLinks_linkRun ..).mask.trans state.onlyLinks.mask
  have typeEq : (linkFree (h.mask + 1) moved).keyType = h.keyType :=
    (onlyLinks_linkRun ..).keyType.trans state.onlyLinks.keyType
  have entryEq : ∀ cell, (linkFree (h.mask + 1) moved).entry cell = (copyDoubled rt h).entry cell :=
    fun cell => (entry_linkFree ..).trans (state.onlyLinks.entry cell)
  have liveEntry : ∀ cell ∈ live, (linkFree (h.mask + 1) moved).entry cell = h.entry cell :=
    fun cell mem => (entryEq cell).trans (entry_copyDoubled (layout.live_le mem))
  constructor
  · exact (onlyLinks_linkRun ..).allocated.trans (state.onlyLinks.allocated.trans layout.allocated)
  · have double := isPowerOfTwo_mul_two_of_isPowerOfTwo layout.power
    rw [maskEq, Nat.sub_add_cancel (by omega)]
    exact double
  · have liveRange : live.Perm (range' 0 (h.mask + 1)) := by
      rw [← range_eq_range']
      exact layout.cells
    have sizeEq : (h.mask + 1) * 2 - 1 + 1 = (h.mask + 1) + (h.mask + 1) := by omega
    have join := @range'_append_1 0 (h.mask + 1) (h.mask + 1)
    rw [Nat.zero_add] at join
    rw [maskEq, sizeEq, range_eq_range', ← join]
    exact (liveRange.append_left _).trans perm_append_comm
  · exact freeSegment_linkFree moved (succ_pos _)
  · intro i bound
    rw [maskEq] at bound
    have chainOf : ∃ chain, Segment moved.ref moved.nextOf (moved.index i) chain none ∧
        chain.Perm (live.filter (fun cell => (copyDoubled rt h).location rt cell = i)) := by
      by_cases low : i < h.mask + 1
      · exact state.low i low
      have chain := state.high (i - (h.mask + 1)) (by omega)
      rw [Nat.sub_add_cancel (by omega)] at chain
      exact chain
    obtain ⟨chain, segment, perm⟩ := chainOf
    apply Exists.intro chain
    constructor
    · rw [ref_linkFree, index_linkFree]
      apply Segment.congr (fun _ _ => rfl) _ segment
      intro cell mem
      have bound := layout.live_le (mem_filter.mp (perm.mem_iff.mp mem)).1
      exact (nextOf_linkFree_of_lt moved (by omega)).symm
    · rw [location_linkFree, funext (state.onlyLinks.location rt)]
      exact perm
  · exact (onlyLinks_linkRun ..).entries.trans (state.onlyLinks.entries.trans layout.entries)
  · rw [map_congr_left liveEntry, typeEq]
    exact layout.distinct
  · intro cell mem
    have above := mem_range'_1.mp mem
    have nullKey : (copyDoubled rt h).keyOf cell = rt.null := keyOf_copyDoubled_of_lt (by omega)
    exact (congrArg Prod.fst (entryEq cell)).trans nullKey
  · intro linear cell mem
    have keyEq : (linkFree (h.mask + 1) moved).keyOf cell = h.keyOf cell :=
      congrArg Prod.fst (liveEntry cell mem)
    rw [keyEq]
    apply layout.liveKeys _ cell mem
    rw [← typeEq]
    exact linear

/-- A full table stays laid out when expanded, with a free list again. -/
theorem expandHash_spec (layout : Layout rt h [] live) :
    ∃ after free, expandHash rt h = some after ∧ Layout rt after free live ∧ free ≠ [] ∧
      after.keyType = h.keyType ∧ after.entryType = h.entryType ∧
      ∀ cell ∈ live, after.entry cell = h.entry cell := by
  obtain ⟨moved, run, state⟩ := relocateSlots_spec layout (h.mask + 1)
    (Nat.zero_add _) (slotsRelocated_zero layout)
  rw [← range_eq_range'] at run
  apply Exists.intro (linkFree (h.mask + 1) moved)
  apply Exists.intro (range' (h.mask + 1) (h.mask + 1))
  constructor
  · simp only [expandHash, layout.allocated, if_true, run]
    rfl
  constructor
  · exact state.layout layout
  constructor
  · simp
  constructor
  · exact (onlyLinks_linkRun ..).keyType.trans state.onlyLinks.keyType
  constructor
  · exact (onlyLinks_linkRun ..).entryType.trans state.onlyLinks.entryType
  · intro cell mem
    rw [entry_linkFree, state.onlyLinks.entry, entry_copyDoubled (layout.live_le mem)]

end

end RakudoStar.Parrot
