import RakudoStar.Parrot.HashStore

/-!
# Deleting, looking up and iterating

The loop of `Parrot_hash_delete` is described, like the relocation of a chain,
from the place of the link it is about to read.
-/

namespace RakudoStar.Parrot

open Foundation List

variable {W : Type} [DecidableEq W] {rt : Runtime W} {h : Hash W}

section

omit [DecidableEq W]

variable {place : Place} {cell : Nat}

theorem nextOf_freeBucket (other : Nat) : (freeBucket rt h place cell).nextOf other =
      if other = cell then h.freeList
      else if place = .next other then h.nextOf cell else h.nextOf other := by
  rw [← Hash.nextOf_writePlace h place (h.nextOf cell) other]
  simp only [freeBucket, Hash.nextOf, Function.update_apply]
  split <;> rfl

theorem index_freeBucket (j : Nat) : (freeBucket rt h place cell).index j =
      if place = .slot j then h.nextOf cell else h.index j :=
  Hash.index_writePlace h place (h.nextOf cell) j

theorem entry_freeBucket_of_ne {other : Nat} (differ : other ≠ cell) :
    (freeBucket rt h place cell).entry other = h.entry other := by
  have written := (Hash.OnlyLinks.writePlace h place (h.nextOf cell)).entry other
  rw [← written]
  simp [freeBucket, Hash.entry, differ]

theorem keyOf_freeBucket_self : (freeBucket rt h place cell).keyOf cell = rt.null := by
  simp [freeBucket, Hash.keyOf]

theorem types_freeBucket : (freeBucket rt h place cell).keyType = h.keyType ∧
      (freeBucket rt h place cell).entryType = h.entryType ∧
      (freeBucket rt h place cell).mask = h.mask ∧
      (freeBucket rt h place cell).allocated = h.allocated ∧
      (freeBucket rt h place cell).ref = h.ref := by
  have only := Hash.OnlyLinks.writePlace h place (h.nextOf cell)
  exact ⟨only.keyType, only.entryType, only.mask, only.allocated, only.ref⟩

theorem location_freeBucket_of_ne {other : Nat} (differ : other ≠ cell) :
    (freeBucket rt h place cell).location rt other = h.location rt other := by
  have keyEq : (freeBucket rt h place cell).keyOf other = h.keyOf other :=
    congrArg Prod.fst (entry_freeBucket_of_ne differ)
  rw [Hash.location, Hash.location, keyEq, types_freeBucket.1, types_freeBucket.2.2.1]

end

/-- Where the loop stopped: at the first link whose bucket has an equal key. -/
structure Unlinked (rt : Runtime W) (h : Hash W) (key : W) (prev : Place)
    (chain : List Nat) (place : Place) (cell : Nat) : Prop where
  mem : cell ∈ chain
  equal : hashCompare rt h.keyType key (h.keyOf cell) = true
  placeIn : place = prev ∨ ∃ other ∈ chain, other ≠ cell ∧ place = .next other
  segment : Segment h.ref (freeBucket rt h place cell).nextOf
    ((freeBucket rt h place cell).readPlace prev) (chain.erase cell) none

/-- The loop over the links of a chain, by recursion on the cells that are left. -/
theorem deleteLoop_spec (key : W) {free live : List Nat} (layout : Layout rt h free live)
    (chain : List Nat) : ∀ {fuel : Nat} {prev : Place}, chain.length < fuel →
      Segment h.ref h.nextOf (h.readPlace prev) chain none → chain.Nodup →
      (∀ cell ∈ chain, cell ≤ h.mask) → (∀ cell ∈ chain, prev ≠ .next cell) →
      (∃ place cell, deleteLoop rt h key fuel prev = some (freeBucket rt h place cell) ∧
        Unlinked rt h key prev chain place cell) ∨
      ((∀ cell ∈ chain, hashCompare rt h.keyType key (h.keyOf cell) = false) ∧
        deleteLoop rt h key fuel prev = some h) := by
  induction chain with
  | nil =>
    intro fuel prev enough segment _ _ _
    obtain ⟨fuel, rfl⟩ := Nat.exists_eq_succ_of_ne_zero (Nat.ne_zero_of_lt enough)
    have ends : h.readPlace prev = none := segment
    right
    constructor
    · exact fun cell mem => absurd mem not_mem_nil
    · rw [deleteLoop, ends]
  | cons head tail ih =>
    intro fuel prev enough segment nodup inside notPrev
    obtain ⟨fuel, rfl⟩ := Nat.exists_eq_succ_of_ne_zero (Nat.ne_zero_of_lt enough)
    have enoughRest : tail.length < fuel := by simpa using enough
    have linkEq := segment.1
    have fresh := nodup_cons.mp nodup
    have notHead := notPrev head (mem_cons_self ..)
    rw [deleteLoop, linkEq]
    simp only [layout.cell?_ref (inside head (mem_cons_self ..)), Option.bind_eq_bind,
      Option.bind_some]
    by_cases equal : hashCompare rt h.keyType key (h.buckets head).key = true
    · rw [if_pos equal]
      left
      apply Exists.intro prev
      apply Exists.intro head
      apply And.intro rfl
      constructor
      · exact mem_cons_self ..
      · exact equal
      · exact .inl rfl
      have readEq : (freeBucket rt h prev head).readPlace prev = h.nextOf head := by
        cases prev with
        | slot j => simp [index_freeBucket]
        | next other =>
          have differ : other ≠ head := fun same => notHead (congrArg Place.next same)
          simp [nextOf_freeBucket, differ]
      rw [readEq, erase_cons_head]
      apply Segment.congr (fun _ _ => rfl) _ segment.2
      intro other mem
      have differ : other ≠ head := by
        rintro rfl
        exact fresh.1 mem
      rw [nextOf_freeBucket, if_neg differ, if_neg (notPrev other (mem_cons_of_mem _ mem))]
    · rw [if_neg equal]
      have apart : ∀ cell ∈ tail, (Place.next head) ≠ .next cell := by
        intro cell mem same
        cases same
        exact fresh.1 mem
      rcases @ih fuel (.next head) enoughRest segment.2 fresh.2
        (forall_mem_cons.mp inside).2 apart with
        ⟨place, cell, run, unlinked⟩ | ⟨absent, run⟩
      · left
        apply Exists.intro place
        apply Exists.intro cell
        apply And.intro run
        have cellDiffer : head ≠ cell := by
          rintro rfl
          exact fresh.1 unlinked.mem
        have placeNext : ∃ other ∈ head :: tail, other ≠ cell ∧ place = .next other := by
          rcases unlinked.placeIn with atHead | ⟨other, mem, differ, atOther⟩
          · exact ⟨head, mem_cons_self .., cellDiffer, atHead⟩
          · exact ⟨other, mem_cons_of_mem _ mem, differ, atOther⟩
        constructor
        · exact mem_cons_of_mem _ unlinked.mem
        · exact unlinked.equal
        · exact .inr placeNext
        have readEq : (freeBucket rt h place cell).readPlace prev = some (h.ref head) := by
          obtain ⟨other, mem, -, rfl⟩ := placeNext
          rw [← linkEq]
          cases prev with
          | slot j => simp [index_freeBucket]
          | next outside =>
            have notCell : outside ≠ cell := fun same =>
              notPrev cell (mem_cons_of_mem _ unlinked.mem) (congrArg Place.next same)
            have notOther : other ≠ outside := fun same =>
              notPrev other mem (congrArg Place.next same.symm)
            simp [nextOf_freeBucket, notCell, notOther]
        rw [readEq, erase_cons_tail (by simpa using cellDiffer)]
        exact ⟨rfl, unlinked.segment⟩
      · right
        constructor
        · intro cell mem
          rcases mem_cons.mp mem with rfl | inTail
          · exact Bool.eq_false_iff.mpr equal
          · exact absent cell inTail
        · exact run

theorem Layout.unlink {free live chain : List Nat} {key : W} {place : Place} {cell : Nat}
    (layout : Layout rt h free live) (perm : chain.Perm (live.filter (fun other =>
      h.location rt other = rt.keyHash h.keyType key &&& h.mask)))
    (unlinked : Unlinked rt h key (.slot (rt.keyHash h.keyType key &&& h.mask)) chain place cell) :
    Layout rt (freeBucket rt h place cell) (cell :: free) (live.erase cell) := by
  have inChain := fun other => @Layout.chain_mem W rt h live chain _ other perm
  obtain ⟨cellLive, cellLocation⟩ := (inChain cell).mp unlinked.mem
  have placeCell : ∀ other, place = .next other → other ∈ live ∧
      h.location rt other = rt.keyHash h.keyType key &&& h.mask := by
    intro other atOther
    rcases unlinked.placeIn with atSlot | ⟨known, mem, -, atKnown⟩
    · rw [atOther] at atSlot
      exact Place.noConfusion atSlot
    rw [atOther] at atKnown
    cases atKnown
    exact (inChain other).mp mem
  have eraseDiffer : ∀ other ∈ live.erase cell, other ≠ cell := by
    rintro other mem rfl
    exact layout.live_nodup.not_mem_erase mem
  have liveSplit := perm_cons_erase cellLive
  have filterEq : ∀ i, (live.erase cell).filter
      (fun other => (freeBucket rt h place cell).location rt other = i) =
        (live.erase cell).filter (fun other => h.location rt other = i) := by
    intro i
    apply filter_congr
    intro other mem
    rw [location_freeBucket_of_ne (eraseDiffer other mem)]
  obtain ⟨keyTypeEq, -, maskEq, allocatedEq, refEq⟩ := @types_freeBucket W rt h place cell
  constructor
  · exact allocatedEq.trans layout.allocated
  · rw [maskEq]
    exact layout.power
  · rw [maskEq]
    have joined : (free ++ cell :: live.erase cell).Perm (free ++ live) :=
      liveSplit.symm.append_left free
    exact perm_middle.symm.trans (joined.trans layout.cells)
  · apply And.intro (congrArg some (congrFun refEq cell).symm)
    rw [nextOf_freeBucket, if_pos rfl, refEq]
    apply Segment.congr (fun _ _ => rfl) _ layout.freeSegment
    intro other mem
    have notLive := layout.free_not_live mem
    have differ : other ≠ cell := by
      rintro rfl
      exact notLive cellLive
    have notPlace : place ≠ .next other := fun atOther => notLive (placeCell other atOther).1
    rw [nextOf_freeBucket, if_neg differ, if_neg notPlace]
  · intro i bound
    rw [maskEq] at bound
    rw [refEq]
    by_cases here : i = rt.keyHash h.keyType key &&& h.mask
    · subst here
      apply Exists.intro (chain.erase cell)
      apply And.intro unlinked.segment
      rw [filterEq]
      have split := liveSplit.filter (fun other =>
        decide (h.location rt other = rt.keyHash h.keyType key &&& h.mask))
      rw [filter_cons_of_pos (by simpa using cellLocation)] at split
      have erased := (perm.trans split).erase cell
      rw [erase_cons_head] at erased
      exact erased
    obtain ⟨other, segment, otherPerm⟩ := layout.chains i bound
    apply Exists.intro other
    constructor
    · have notSlot : place ≠ .slot i := by
        rcases unlinked.placeIn with atSlot | ⟨known, -, -, atKnown⟩
        · rw [atSlot]
          exact fun same => here (Place.slot.inj same).symm
        · rw [atKnown]
          exact Place.noConfusion
      rw [index_freeBucket, if_neg notSlot]
      apply Segment.congr (fun _ _ => rfl) _ segment
      intro link mem
      obtain ⟨linkLive, linkLocation⟩ := Layout.chain_mem otherPerm |>.mp mem
      have differ : link ≠ cell := by
        rintro rfl
        exact here (linkLocation.symm.trans cellLocation)
      have notPlace : place ≠ .next link := fun atLink =>
        here (linkLocation.symm.trans (placeCell link atLink).2)
      rw [nextOf_freeBucket, if_neg differ, if_neg notPlace]
    · rw [filterEq]
      have split := liveSplit.filter (fun other => decide (h.location rt other = i))
      have elsewhere : ¬ h.location rt cell = i := fun located =>
        here (located.symm.trans cellLocation)
      rw [filter_cons_of_neg (by simpa using elsewhere)] at split
      exact otherPerm.trans split
  · rw [length_erase_of_mem cellLive, ← layout.entries]
    rfl
  · have sameEntries : (live.erase cell).map (freeBucket rt h place cell).entry =
        (live.erase cell).map h.entry :=
      map_congr_left (fun other mem => entry_freeBucket_of_ne (eraseDiffer other mem))
    rw [sameEntries, keyTypeEq]
    apply List.Pairwise.sublist _ layout.distinct
    exact (erase_sublist.map h.entry).map Prod.fst
  · intro other mem
    by_cases same : other = cell
    · rw [same]
      exact keyOf_freeBucket_self
    have inFree := (mem_cons.mp mem).resolve_left same
    exact (congrArg Prod.fst (entry_freeBucket_of_ne same)).trans (layout.freeKeys other inFree)
  · intro linear other mem
    have keyEq := congrArg Prod.fst
      (@entry_freeBucket_of_ne W rt h place cell other (eraseDiffer other mem))
    intro isNull
    apply layout.liveKeys (keyTypeEq ▸ linear) other (mem_of_mem_erase mem)
    exact keyEq.symm.trans isNull

theorem hashDelete_spec (lawful : LawfulKeys rt h.keyType) {contents : List (W × W)}
    (holds : Holds rt h contents) (key : W) : ∃ after, hashDelete rt h key = some after ∧
      Holds rt after (eraseEntry (hashCompare rt h.keyType) key contents) ∧
      after.keyType = h.keyType ∧ after.entryType = h.entryType := by
  have distinct := holds.distinct lawful
  rcases holds with ⟨vacant, rfl⟩ | ⟨free, live, layout, same⟩
  · apply Exists.intro h
    rw [hashDelete, vacant.allocated]
    exact ⟨rfl, .inl ⟨vacant, rfl⟩, rfl, rfl⟩
  obtain ⟨chain, segment, perm⟩ :=
    layout.chains (rt.keyHash h.keyType key &&& h.mask) (Nat.and_le_right)
  have inside : ∀ cell ∈ chain, cell ≤ h.mask :=
    fun cell mem => layout.live_le (Layout.chain_mem perm |>.mp mem).1
  have enough : chain.length < h.mask + 2 := by
    have := layout.chain_length_le perm
    omega
  have nodup : chain.Nodup := perm.nodup_iff.mpr (layout.live_nodup.filter _)
  rw [hashDelete, layout.allocated]
  rcases @deleteLoop_spec W _ rt h key free live layout chain (h.mask + 2)
    (.slot (rt.keyHash h.keyType key &&& h.mask)) enough segment nodup inside
    (fun _ _ => Place.noConfusion) with ⟨place, cell, run, unlinked⟩ | ⟨absent, run⟩
  · refine ⟨freeBucket rt h place cell, run, .inr ⟨cell :: free, live.erase cell,
      layout.unlink perm unlinked, ?_⟩, types_freeBucket.1, types_freeBucket.2.1⟩
    have cellLive := (Layout.chain_mem perm |>.mp unlinked.mem).1
    have contentsSplit : contents.Perm (h.entry cell :: (live.erase cell).map h.entry) :=
      same.trans ((perm_cons_erase cellLive).map h.entry)
    have erased := eraseEntry_perm lawful.equivalence distinct contentsSplit unlinked.equal
    have sameEntries : (live.erase cell).map (freeBucket rt h place cell).entry =
        (live.erase cell).map h.entry := by
      apply map_congr_left
      intro other mem
      apply entry_freeBucket_of_ne
      rintro rfl
      exact layout.live_nodup.not_mem_erase mem
    rw [sameEntries]
    exact erased
  · apply Exists.intro h
    apply And.intro run
    have liveAbsent : ∀ cell ∈ live, hashCompare rt h.keyType key (h.keyOf cell) = false := by
      intro cell mem
      cases equal : hashCompare rt h.keyType key (h.keyOf cell) with
      | false => rfl
      | true =>
        have sameSlot : h.location rt cell = rt.keyHash h.keyType key &&& h.mask := by
          rw [Hash.location, lawful.hash equal]
        have notEqual := absent cell ((Layout.chain_mem perm).mpr ⟨mem, sameSlot⟩)
        exact absurd equal (by simp [notEqual])
    rw [eraseEntry_of_absent (absent_entries same liveAbsent)]
    exact ⟨.inr ⟨free, live, layout, same⟩, rfl, rfl⟩

end RakudoStar.Parrot
