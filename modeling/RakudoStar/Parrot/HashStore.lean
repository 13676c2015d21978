import RakudoStar.Parrot.HashExpand

/-!
# Storing and deleting

Each operation on one table, on the split of the cells and then on the entries.
-/

namespace RakudoStar.Parrot

open Foundation List Function

variable {W : Type} {rt : Runtime W}

section

variable {h : Hash W} {p : Pointer} {cell loc : Nat} {key value : W}

theorem nextOf_takeBucket (other : Nat) : (takeBucket h p cell loc key value).nextOf other =
      if other = cell then h.index loc else h.nextOf other := by
  simp only [takeBucket, Hash.nextOf, update_apply]
  split <;> rfl

theorem index_takeBucket (j : Nat) :
    (takeBucket h p cell loc key value).index j = if j = loc then some p else h.index j := by
  simp only [takeBucket, update_apply]

theorem entry_takeBucket_self : (takeBucket h p cell loc key value).entry cell = (key, value) := by
  simp [takeBucket, Hash.entry]

theorem entry_takeBucket_of_ne {other : Nat} (differ : other ≠ cell) :
    (takeBucket h p cell loc key value).entry other = h.entry other := by
  simp [takeBucket, Hash.entry, differ]

theorem location_takeBucket_of_ne {other : Nat} (differ : other ≠ cell) :
    (takeBucket h p cell loc key value).location rt other = h.location rt other := by
  have keyEq : (takeBucket h p cell loc key value).keyOf other = h.keyOf other :=
    congrArg Prod.fst (entry_takeBucket_of_ne differ)
  rw [Hash.location, keyEq]
  rfl

end

section

variable (h : Hash W) (cell : Nat) (value : W)

theorem nextOf_setValue : (h.setValue cell value).nextOf = h.nextOf := by
  funext other
  simp only [Hash.setValue, Hash.nextOf, update_apply]
  split
  · subst other
    rfl
  · rfl

theorem keyOf_setValue : (h.setValue cell value).keyOf = h.keyOf := by
  funext other
  simp only [Hash.setValue, Hash.keyOf, update_apply]
  split
  · subst other
    rfl
  · rfl

theorem entry_setValue_self : (h.setValue cell value).entry cell = (h.keyOf cell, value) := by
  simp [Hash.setValue, Hash.entry, Hash.keyOf]

theorem entry_setValue_of_ne {other : Nat}
    (differ : other ≠ cell) : (h.setValue cell value).entry other = h.entry other := by
  simp [Hash.setValue, Hash.entry, differ]

theorem location_setValue : (h.setValue cell value).location rt = h.location rt := by
  funext other
  rw [Hash.location, Hash.location, keyOf_setValue]
  rfl

end

section

theorem index_pushFree (count : Nat) : ∀ h : Hash W, (pushFree count h).index = h.index := by
  induction count with
  | zero => exact fun _ => rfl
  | succ cell ih => exact fun h => ih _

theorem onlyLinks_pushFree (count : Nat) :
    ∀ h : Hash W, h.OnlyLinks { pushFree count h with freeList := h.freeList } := by
  induction count with
  | zero => exact fun h => Hash.OnlyLinks.refl h
  | succ cell ih =>
    intro h
    have rest := ih
      { h.setNext cell h.freeList with freeList := some (h.ref cell) }
    have first := Hash.OnlyLinks.setNext h cell h.freeList
    exact {
      block := rest.block
      allocated := rest.allocated
      mask := rest.mask
      entries := rest.entries
      freeList := rfl
      keyType := rest.keyType
      entryType := rest.entryType
      entry := fun other => (rest.entry other).trans (first.entry other) }

theorem segment_pushFree (count : Nat) :
    ∀ {h : Hash W} {cells : List Nat}, (∀ cell ∈ cells, count ≤ cell) →
      Segment h.ref h.nextOf h.freeList cells none →
      Segment h.ref (pushFree count h).nextOf (pushFree count h).freeList
        (range' 0 count ++ cells) none := by
  induction count with
  | zero => exact fun _ segment => segment
  | succ cell ih =>
    intro h cells above segment
    have extended : Segment h.ref (h.setNext cell h.freeList).nextOf (some (h.ref cell))
        (cell :: cells) none := by
      apply And.intro rfl
      rw [Hash.nextOf_setNext, if_pos rfl]
      apply Segment.congr (fun _ _ => rfl) _ segment
      intro other mem
      have bound := above other mem
      rw [Hash.nextOf_setNext, if_neg (by omega)]
    have rest := @ih
      { h.setNext cell h.freeList with freeList := some (h.ref cell) } (cell :: cells)
      (by
        intro other mem
        rcases mem_cons.mp mem with rfl | inCells
        · exact Nat.le_refl _
        · exact Nat.le_of_succ_le (above other inCells))
      extended
    have split : List.range' 0 (cell + 1) ++ cells = List.range' 0 cell ++ cell :: cells := by
      rw [range'_1_concat, Nat.zero_add]
      simp
    rw [split]
    exact rest

theorem doubleUntil_power (size fuel : Nat) : ∀ {newSize : Nat}, newSize.isPowerOfTwo →
      (doubleUntil size fuel newSize).isPowerOfTwo := by
  induction fuel with
  | zero => exact fun power => power
  | succ fuel ih =>
    intro newSize power
    rw [doubleUntil]
    split
    · exact ih (Nat.isPowerOfTwo_mul_two_of_isPowerOfTwo power)
    · exact power

theorem types_allocateBuckets (h : Hash W) (size : Nat) :
    (allocateBuckets rt h size).keyType = h.keyType ∧
      (allocateBuckets rt h size).entryType = h.entryType := by
  have only := onlyLinks_pushFree (doubleUntil size size 2)
    { h with
      block := h.block + 1
      allocated := true
      mask := doubleUntil size size 2 - 1
      buckets := fun _ => ⟨none, rt.null, rt.null⟩
      index := fun _ => none }
  exact ⟨only.keyType, only.entryType⟩

end

section

variable [DecidableEq W] {h : Hash W} {free live : List Nat}

theorem Layout.take (lawful : LawfulKeys rt h.keyType) {cell : Nat} {key value : W}
    (layout : Layout rt h (cell :: free) live)
    (absent : ∀ other ∈ live, hashCompare rt h.keyType key (h.keyOf other) = false)
    (usable : h.keyType.indexed = false → key ≠ rt.null) :
    Layout rt (takeBucket h (h.ref cell) cell (rt.keyHash h.keyType key &&& h.mask) key value)
      free (cell :: live) := by
  generalize isSlot : rt.keyHash h.keyType key &&& h.mask = slot
  have cellNotLive : cell ∉ live := layout.free_not_live (mem_cons_self ..)
  have liveDiffer : ∀ other ∈ live, other ≠ cell := by
    rintro other mem rfl
    exact cellNotLive mem
  have freeDiffer : ∀ other ∈ free, other ≠ cell := by
    rintro other mem rfl
    exact (nodup_cons.mp layout.nodup).1 (mem_append_left _ mem)
  have locationSelf : (takeBucket h (h.ref cell) cell slot key value).location rt cell = slot := by
    have keyEq : (takeBucket h (h.ref cell) cell slot key value).keyOf cell = key :=
      congrArg Prod.fst entry_takeBucket_self
    rw [Hash.location, keyEq]
    exact isSlot
  constructor
  · exact layout.allocated
  · exact layout.power
  · exact perm_middle.trans layout.cells
  · apply Segment.congr (fun _ _ => rfl) _ layout.freeSegment.2
    intro other mem
    rw [nextOf_takeBucket, if_neg (freeDiffer other mem)]
  · intro i bound
    obtain ⟨chain, segment, perm⟩ := layout.chains i bound
    have kept : Segment h.ref (takeBucket h (h.ref cell) cell slot key value).nextOf (h.index i)
        chain none := by
      apply Segment.congr (fun _ _ => rfl) _ segment
      intro other mem
      have inLive := (Layout.chain_mem perm |>.mp mem).1
      rw [nextOf_takeBucket, if_neg (liveDiffer other inLive)]
    have filterEq : live.filter (fun other =>
        (takeBucket h (h.ref cell) cell slot key value).location rt other = i) =
          live.filter (fun other => h.location rt other = i) := by
      apply filter_congr
      intro other mem
      rw [location_takeBucket_of_ne (liveDiffer other mem)]
    by_cases here : i = slot
    · apply Exists.intro (cell :: chain)
      constructor
      · rw [index_takeBucket, if_pos here]
        apply And.intro rfl
        rw [nextOf_takeBucket, if_pos rfl, ← here]
        rw [← here] at kept
        exact kept
      · rw [filter_cons_of_pos (by simp [locationSelf, here]), filterEq]
        exact perm.cons cell
    apply Exists.intro chain
    constructor
    · rw [index_takeBucket, if_neg here]
      exact kept
    · rw [filter_cons_of_neg (by simpa [locationSelf] using Ne.symm here), filterEq]
      exact perm
  · rw [length_cons, ← layout.entries]
    rfl
  · have sameEntries : live.map (takeBucket h (h.ref cell) cell slot key value).entry =
      live.map h.entry :=
      map_congr_left (fun other mem => entry_takeBucket_of_ne (liveDiffer other mem))
    rw [map_cons, entry_takeBucket_self, sameEntries]
    apply List.Pairwise.cons _ layout.distinct
    intro otherKey mem
    obtain ⟨pair, pairMem, rfl⟩ := mem_map.mp mem
    obtain ⟨other, otherMem, rfl⟩ := mem_map.mp pairMem
    cases equal : hashCompare rt h.keyType (h.keyOf other) key with
    | false => exact equal
    | true =>
      have reversed := lawful.equivalence.symm equal
      exact absurd reversed (by simp [absent other otherMem])
  · intro other mem
    have keyEq := congrArg Prod.fst (@entry_takeBucket_of_ne W h (h.ref cell) cell
      slot key value other (freeDiffer other mem))
    exact keyEq.trans (layout.freeKeys other (mem_cons_of_mem _ mem))
  · intro linear other mem
    rcases mem_cons.mp mem with rfl | inLive
    · have keyEq := congrArg Prod.fst (@entry_takeBucket_self W h (h.ref other) other
        slot key value)
      intro isNull
      exact usable linear (keyEq.symm.trans isNull)
    have keyEq := congrArg Prod.fst (@entry_takeBucket_of_ne W h (h.ref cell) cell
      slot key value other (liveDiffer other inLive))
    intro isNull
    exact layout.liveKeys linear other inLive (keyEq.symm.trans isNull)

theorem Layout.setValue (layout : Layout rt h free live) (cell : Nat) (value : W) :
    Layout rt (h.setValue cell value) free live where
  allocated := layout.allocated
  power := layout.power
  cells := layout.cells
  freeSegment := by
    rw [nextOf_setValue]
    exact layout.freeSegment
  chains := by
    intro i bound
    rw [nextOf_setValue, location_setValue]
    exact layout.chains i bound
  entries := layout.entries
  distinct := by
    have sameKeys : (live.map (h.setValue cell value).entry).map Prod.fst =
        (live.map h.entry).map Prod.fst := by
      rw [map_map, map_map]
      apply map_congr_left
      intro other _
      exact congrFun (keyOf_setValue h cell value) other
    rw [Distinct, sameKeys]
    exact layout.distinct
  freeKeys := by
    rw [keyOf_setValue]
    exact layout.freeKeys
  liveKeys := by
    rw [keyOf_setValue]
    exact layout.liveKeys

theorem allocateBuckets_layout (h : Hash W) (size : Nat) (noFree : h.freeList = none)
    (noEntries : h.entries = 0) : ∃ free, Layout rt (allocateBuckets rt h size) free [] := by
  have power : (doubleUntil size size 2).isPowerOfTwo := doubleUntil_power size size ⟨1, rfl⟩
  have positive := Nat.pos_of_isPowerOfTwo power
  have only := onlyLinks_pushFree (doubleUntil size size 2)
    { h with
      block := h.block + 1
      allocated := true
      mask := doubleUntil size size 2 - 1
      buckets := fun _ => ⟨none, rt.null, rt.null⟩
      index := fun _ => none }
  have maskEq : (allocateBuckets rt h size).mask + 1 = doubleUntil size size 2 := by
    have mask : (allocateBuckets rt h size).mask = doubleUntil size size 2 - 1 := only.mask
    rw [mask, Nat.sub_add_cancel positive]
  apply Exists.intro (range' 0 (doubleUntil size size 2))
  constructor
  · exact only.allocated
  · rw [maskEq]
    exact power
  · rw [maskEq, append_nil, range_eq_range']
  · have segment := @segment_pushFree W (doubleUntil size size 2)
      { h with
        block := h.block + 1
        allocated := true
        mask := doubleUntil size size 2 - 1
        buckets := fun _ => ⟨none, rt.null, rt.null⟩
        index := fun _ => none } [] (by simp) noFree
    rw [append_nil] at segment
    have refEq := only.ref
    rw [← refEq] at segment
    exact segment
  · intro i _
    apply Exists.intro []
    constructor
    · change (allocateBuckets rt h size).index i = none
      rw [allocateBuckets, index_pushFree]
    · exact List.Perm.nil
  · exact only.entries.trans noEntries
  · exact List.Pairwise.nil
  · intro cell _
    exact congrArg Prod.fst (only.entry cell)
  · intro _ cell mem
    cases mem

theorem Vacant.allocate (vacant : Vacant h) (size : Nat) :
    ∃ free, Layout rt (allocateBuckets rt h size) free [] :=
  allocateBuckets_layout h size vacant.freeList vacant.entries

/-- Storing a key that no live cell has, expanding the table when it is full. -/
theorem storeNew_spec (lawful : LawfulKeys rt h.keyType) (layout : Layout rt h free live)
    {key : W} (value : W)
    (absent : ∀ other ∈ live, hashCompare rt h.keyType key (h.keyOf other) = false)
    (usable : h.keyType.indexed = false → key ≠ rt.null) : ∃ after free' live',
      hashStoreValueInBucket rt h none (rt.keyHash h.keyType key) key value = some after ∧
      Layout rt after free' live' ∧ live'.map after.entry = (key, value) :: live.map h.entry ∧
      after.keyType = h.keyType ∧ after.entryType = h.entryType := by
  -- the table the bucket is taken from has a free bucket and the same entries
  have ready : ∃ middle cell rest,
      ensureFree rt h = some middle ∧
      Layout rt middle (cell :: rest) live ∧ middle.keyType = h.keyType ∧
      middle.entryType = h.entryType ∧ ∀ other ∈ live, middle.entry other = h.entry other := by
    cases freeEq : free with
    | nil =>
      subst freeEq
      obtain ⟨middle, newFree, run, middleLayout, notEmpty, keyType, entryType, entries⟩ :=
        expandHash_spec layout
      obtain ⟨cell, rest, newFreeEq⟩ := exists_cons_of_ne_nil notEmpty
      subst newFreeEq
      have noFree : h.freeList = none := layout.freeSegment
      apply Exists.intro middle
      apply Exists.intro cell
      apply Exists.intro rest
      rw [ensureFree, noFree]
      exact ⟨run, middleLayout, keyType, entryType, entries⟩
    | cons cell rest =>
      subst freeEq
      have someFree := layout.freeSegment.1
      apply Exists.intro h
      apply Exists.intro cell
      apply Exists.intro rest
      rw [ensureFree, someFree]
      exact ⟨rfl, layout, rfl, rfl, fun _ _ => rfl⟩
  obtain ⟨middle, cell, rest, run, middleLayout, keyType, entryType, entries⟩ := ready
  have liveDiffer : ∀ other ∈ live, other ≠ cell := by
    rintro other mem rfl
    exact middleLayout.free_not_live (mem_cons_self ..) mem
  have middleAbsent : ∀ other ∈ live,
      hashCompare rt middle.keyType key (middle.keyOf other) = false := by
    intro other mem
    have keyEq : middle.keyOf other = h.keyOf other := congrArg Prod.fst (entries other mem)
    rw [keyType, keyEq]
    exact absent other mem
  have taken := @Layout.take W rt _ middle rest live (keyType ▸ lawful) cell key value middleLayout
    middleAbsent (by
      intro linear
      apply usable
      rw [← keyType]
      exact linear)
  rw [keyType] at taken
  refine ⟨_, rest, cell :: live, ?_, taken, ?_, keyType, entryType⟩
  · have inside := middleLayout.free_le (mem_cons_self ..)
    simp only [hashStoreValueInBucket, run, Option.bind_eq_bind, Option.bind_some,
      middleLayout.freeSegment.1, middleLayout.cell?_ref inside]
  rw [map_cons, entry_takeBucket_self]
  congr 1
  apply map_congr_left
  intro other mem
  rw [entry_takeBucket_of_ne (liveDiffer other mem), entries other mem]

end

section

variable [DecidableEq W] {h : Hash W} {contents : List (W × W)} {key : W}

theorem Holds.distinct (lawful : LawfulKeys rt h.keyType) (holds : Holds rt h contents) :
    Distinct (hashCompare rt h.keyType) contents := by
  rcases holds with ⟨-, rfl⟩ | ⟨free, live, layout, same⟩
  · exact List.Pairwise.nil
  · exact layout.distinct.perm lawful.equivalence same.symm

theorem Holds.size (holds : Holds rt h contents) : h.size = contents.length := by
  rcases holds with ⟨vacant, rfl⟩ | ⟨free, live, layout, same⟩
  · exact vacant.entries
  · rw [same.length_eq, length_map]
    exact layout.entries

theorem absent_entries {live : List Nat} (same : contents.Perm (live.map h.entry))
    (absent : ∀ cell ∈ live, hashCompare rt h.keyType key (h.keyOf cell) = false) :
    ∀ entry ∈ contents, hashCompare rt h.keyType key entry.1 = false := by
  intro entry mem
  obtain ⟨cell, cellMem, rfl⟩ := mem_map.mp (same.mem_iff.mp mem)
  exact absent cell cellMem

theorem hashPut_spec (lawful : LawfulKeys rt h.keyType) (holds : Holds rt h contents)
    (value : W) (usable : h.keyType.indexed = false → key ≠ rt.null) :
    ∃ after bucket, hashPut rt h key value = some (after, bucket) ∧
      Holds rt after (insertEntry (hashCompare rt h.keyType) key value contents) ∧
      after.keyType = h.keyType ∧ after.entryType = h.entryType := by
  rcases holds with ⟨vacant, rfl⟩ | ⟨free, live, layout, same⟩
  · obtain ⟨free, layout⟩ := @Vacant.allocate W rt _ h vacant 2
    obtain ⟨keyType, entryType⟩ := @types_allocateBuckets W rt h 2
    obtain ⟨after, free', live', run, afterLayout, entries, afterKey, afterEntry⟩ :=
      storeNew_spec (keyType ▸ lawful) layout value
        (fun other mem => absurd mem not_mem_nil)
        (fun linear => usable (keyType ▸ linear))
    rw [keyType] at run afterKey
    rw [entryType] at afterEntry
    refine ⟨after, none, ?_, .inr ⟨free', live', afterLayout, ?_⟩, afterKey, afterEntry⟩
    · simp [hashPut, vacant.allocated, keyType, run]
    · rw [entries]
      exact List.Perm.refl _
  obtain ⟨bucket, search, found⟩ := hashFind_spec lawful layout key
  have runPut : hashPut rt h key value = (do
      let stored ← hashStoreValueInBucket rt h bucket (rt.keyHash h.keyType key) key value
      some (stored, bucket)) := by
    simp only [hashPut, layout.allocated, if_true, search, Option.bind_eq_bind, Option.bind_some]
  have distinct := layout.distinct.perm lawful.equivalence same.symm
  cases found with
  | present inLive equal =>
    rename_i cell
    refine ⟨h.setValue cell value, some cell, runPut,
      .inr ⟨free, live, layout.setValue cell value, ?_⟩, rfl, rfl⟩
    have liveSplit := perm_cons_erase inLive
    have contentsSplit : contents.Perm (h.entry cell :: (live.erase cell).map h.entry) :=
      same.trans (liveSplit.map h.entry)
    have inserted := insertEntry_perm lawful.equivalence value distinct contentsSplit equal
    have others : (live.erase cell).map (h.setValue cell value).entry =
        (live.erase cell).map h.entry := by
      apply map_congr_left
      intro other mem
      apply entry_setValue_of_ne
      rintro rfl
      exact layout.live_nodup.not_mem_erase mem
    have after := liveSplit.map (h.setValue cell value).entry
    rw [map_cons, entry_setValue_self, others] at after
    exact inserted.trans after.symm
  | absent absent =>
    obtain ⟨after, free', live', run, afterLayout, entries, keyType, entryType⟩ :=
      storeNew_spec lawful layout value absent usable
    refine ⟨after, none, ?_, .inr ⟨free', live', afterLayout, ?_⟩, keyType, entryType⟩
    · rw [runPut, run]
      rfl
    · rw [insertEntry_of_absent value (absent_entries same absent), entries]
      exact perm_append_comm.trans (same.cons _)

end

end RakudoStar.Parrot
