import RakudoStar.Foundation.FiniteMap
import RakudoStar.Foundation.Segment
import RakudoStar.Parrot.HashTable

/-!
# The invariant of the hash table

The cells of the current block are free, on the free list, or live, each in the chain of its
key. `OnlyLinks` says that changing a link keeps everything else.
-/

namespace RakudoStar.Parrot

open Foundation List Option Function

variable {W : Type}

namespace Hash

def keyOf (h : Hash W) (cell : Nat) : W := (h.buckets cell).key

/-- The slot of the index a bucket belongs to. -/
def location (rt : Runtime W) (h : Hash W) (cell : Nat) : Nat :=
  rt.keyHash h.keyType (h.keyOf cell) &&& h.mask

section
variable (h : Hash W) (cell : Nat) (place : Place) (link : Option Pointer)
include h

@[simp]
theorem entry_fst : (h.entry cell).1 = h.keyOf cell := rfl

theorem nextOf_setNext (cell other : Nat) (link : Option Pointer) :
    (h.setNext cell link).nextOf other = if other = cell then link else h.nextOf other := by
  simp only [nextOf, setNext, update_apply]
  split <;> rfl

@[simp]
theorem index_setNext : (h.setNext cell link).index = h.index := rfl

@[simp]
theorem nextOf_setIndex (i : Nat) (link : Option Pointer) :
    (h.setIndex i link).nextOf = h.nextOf := rfl

theorem index_setIndex (i j : Nat) (link : Option Pointer) :
    (h.setIndex i link).index j = if j = i then link else h.index j := by
  simp only [setIndex, update_apply]

theorem nextOf_writePlace (cell : Nat) : (h.writePlace place link).nextOf cell =
      if place = .next cell then link else h.nextOf cell := by
  cases place with
  | slot i => simp [writePlace]
  | next other =>
    rw [writePlace, nextOf_setNext]
    simp only [Place.next.injEq, eq_comm]

theorem index_writePlace (i : Nat) : (h.writePlace place link).index i =
      if place = .slot i then link else h.index i := by
  cases place with
  | next other => simp [writePlace]
  | slot j =>
    rw [writePlace, index_setIndex]
    simp only [Place.slot.injEq, eq_comm]

@[simp]
theorem readPlace_slot (i : Nat) : h.readPlace (.slot i) = h.index i := rfl

@[simp]
theorem readPlace_next : h.readPlace (.next cell) = h.nextOf cell := rfl

theorem readPlace_writePlace : (h.writePlace place link).readPlace place = link := by
  cases place with
  | slot i => simp [index_writePlace]
  | next cell => simp [nextOf_writePlace]

end

/-- The state `after` differs from `before` in links of chains only. -/
structure OnlyLinks (before after : Hash W) : Prop where
  block : after.block = before.block
  allocated : after.allocated = before.allocated
  mask : after.mask = before.mask
  entries : after.entries = before.entries
  freeList : after.freeList = before.freeList
  keyType : after.keyType = before.keyType
  entryType : after.entryType = before.entryType
  entry : ∀ cell, after.entry cell = before.entry cell

namespace OnlyLinks

theorem refl (h : Hash W) : OnlyLinks h h :=
  ⟨rfl, rfl, rfl, rfl, rfl, rfl, rfl, fun _ => rfl⟩

theorem trans {first second third : Hash W} (left : OnlyLinks first second)
    (right : OnlyLinks second third) : OnlyLinks first third where
  block := right.block.trans left.block
  allocated := right.allocated.trans left.allocated
  mask := right.mask.trans left.mask
  entries := right.entries.trans left.entries
  freeList := right.freeList.trans left.freeList
  keyType := right.keyType.trans left.keyType
  entryType := right.entryType.trans left.entryType
  entry := fun cell => (right.entry cell).trans (left.entry cell)

variable {before after : Hash W} (h : Hash W)

theorem keyOf (only : OnlyLinks before after) (cell : Nat) : after.keyOf cell = before.keyOf cell :=
  congrArg Prod.fst (only.entry cell)

theorem location (rt : Runtime W) (only : OnlyLinks before after) (cell : Nat) :
    after.location rt cell = before.location rt cell := by
  rw [Hash.location, Hash.location, only.keyOf, only.keyType, only.mask]

theorem ref (only : OnlyLinks before after) : after.ref = before.ref := by
  funext cell
  rw [Hash.ref, Hash.ref, only.block]

theorem setNext (cell : Nat) (link : Option Pointer) : OnlyLinks h (h.setNext cell link) where
  block := rfl
  allocated := rfl
  mask := rfl
  entries := rfl
  freeList := rfl
  keyType := rfl
  entryType := rfl
  entry := by
    intro other
    simp only [Hash.entry, Hash.setNext, update_apply]
    split
    · subst other
      rfl
    · rfl

theorem setIndex (i : Nat) (link : Option Pointer) : OnlyLinks h (h.setIndex i link) :=
  ⟨rfl, rfl, rfl, rfl, rfl, rfl, rfl, fun _ => rfl⟩

theorem writePlace (place : Place) (link : Option Pointer) :
    OnlyLinks h (h.writePlace place link) := by
  cases place with
  | slot i => exact setIndex h i link
  | next cell => exact setNext h cell link

end OnlyLinks

end Hash

/-- Comparison is an equivalence, and hashes are stable and consistent with it. -/
structure LawfulKeys [DecidableEq W] (rt : Runtime W) (keyType : KeyType) : Prop where
  equivalence : EquivalenceTest (hashCompare rt keyType)
  hash : ∀ {a b}, hashCompare rt keyType a b = true → rt.keyHash keyType a = rt.keyHash keyType b
  bytes : keyType = .string → ∀ {a b}, rt.encoding a = rt.encoding b →
    rt.keyHash .string a = rt.keyHash .string b →
    rt.keyEqual .string a b = decide (rt.strBytes a = rt.strBytes b)

/-- `free` and `live` are the buckets, on the free list and in the chains of their slots. -/
structure Layout [DecidableEq W] (rt : Runtime W) (h : Hash W) (free live : List Nat) : Prop where
  allocated : h.allocated = true
  power : (h.mask + 1).isPowerOfTwo
  cells : (free ++ live).Perm (List.range (h.mask + 1))
  freeSegment : Segment h.ref h.nextOf h.freeList free none
  chains : ∀ i ≤ h.mask, ∃ chain, Segment h.ref h.nextOf (h.index i) chain none ∧
    chain.Perm (live.filter (fun cell => h.location rt cell = i))
  entries : h.entries = live.length
  distinct : Distinct (hashCompare rt h.keyType) (live.map h.entry)
  freeKeys : ∀ cell ∈ free, h.keyOf cell = rt.null
  liveKeys : h.keyType.indexed = false → ∀ cell ∈ live, h.keyOf cell ≠ rt.null

/-- A table without buckets. -/
structure Vacant (h : Hash W) : Prop where
  allocated : h.allocated = false
  freeList : h.freeList = none
  entries : h.entries = 0

/-- The table holds exactly the entries `contents`. -/
def Holds [DecidableEq W] (rt : Runtime W) (h : Hash W) (contents : List (W × W)) : Prop :=
  (Vacant h ∧ contents = []) ∨ ∃ free live, Layout rt h free live ∧ contents.Perm (live.map h.entry)

section

theorem and_mask {size : Nat} (power : size.isPowerOfTwo) (value : Nat) :
    value &&& (size - 1) = value % size := by
  obtain ⟨exponent, rfl⟩ := power
  exact Nat.and_two_pow_sub_one_eq_mod value exponent

theorem and_mask_double {size : Nat} (power : size.isPowerOfTwo) (value : Nat) :
    value &&& (size * 2 - 1) = value &&& (size - 1) ∨
      value &&& (size * 2 - 1) = (value &&& (size - 1)) + size := by
  rw [and_mask power, and_mask (Nat.isPowerOfTwo_mul_two_of_isPowerOfTwo power), Nat.mod_mul]
  have bit : value / size % 2 = 0 ∨ value / size % 2 = 1 := by omega
  rcases bit with low | high
  · left
    rw [low, Nat.mul_zero, Nat.add_zero]
  · right
    rw [high, Nat.mul_one]

end

namespace Layout

variable [DecidableEq W] {rt : Runtime W} {h : Hash W} {free live : List Nat} {i : Nat}

section
variable (layout : Layout rt h free live) {cell : Nat}
include layout

theorem nodup : (free ++ live).Nodup :=
  layout.cells.nodup_iff.mpr nodup_range

theorem live_nodup : live.Nodup :=
  (nodup_append.mp layout.nodup).2.1

theorem free_not_live (inFree : cell ∈ free) : cell ∉ live := by
  intro inLive
  exact (nodup_append.mp layout.nodup).2.2 cell inFree cell inLive rfl

theorem free_le (mem : cell ∈ free) : cell ≤ h.mask := by
  have inRange := layout.cells.mem_iff.mp (mem_append_left live mem)
  have bound := mem_range.mp inRange
  omega

theorem live_le (mem : cell ∈ live) : cell ≤ h.mask := by
  have inRange := layout.cells.mem_iff.mp (mem_append_right free mem)
  have bound := mem_range.mp inRange
  omega

theorem live_length_le : live.length ≤ h.mask + 1 := by
  have lengths := layout.cells.length_eq
  rw [length_append, length_range] at lengths
  omega

end

omit [DecidableEq W] in
theorem location_le (cell : Nat) : h.location rt cell ≤ h.mask := Nat.and_le_right

theorem cell?_ref (layout : Layout rt h free live) {cell : Nat} (bound : cell ≤ h.mask) :
    h.cell? (h.ref cell) = some cell := by
  simp [Hash.cell?, Hash.ref, layout.allocated, bound]

theorem slot?_eq (layout : Layout rt h free live) (bound : i ≤ h.mask) :
    h.slot? i = some (h.index i) := by
  simp [Hash.slot?, layout.allocated, bound]

omit [DecidableEq W] in
theorem chain_mem {chain : List Nat} {i cell : Nat}
    (perm : chain.Perm (live.filter (fun cell => h.location rt cell = i))) :
    cell ∈ chain ↔ cell ∈ live ∧ h.location rt cell = i := by
  rw [perm.mem_iff, mem_filter]
  simp

theorem chain_length_le (layout : Layout rt h free live) {chain : List Nat}
    (perm : chain.Perm (live.filter (fun cell => h.location rt cell = i))) :
    chain.length ≤ h.mask + 1 := by
  calc
    chain.length = (live.filter _).length := perm.length_eq
    _ ≤ live.length := length_filter_le ..
    _ ≤ h.mask + 1 := layout.live_length_le

theorem freeList_eq_none_iff (layout : Layout rt h free live) : h.freeList = none ↔ free = [] := by
  have segment := layout.freeSegment
  cases free with
  | nil => simpa using segment
  | cons cell cells => simp [segment.1]

end Layout

section

variable [DecidableEq W] {rt : Runtime W} {h : Hash W} {free live : List Nat}

theorem findBucket_eq (layout : Layout rt h free live) (test : W → Bool)
    {start : Option Pointer} {chain : List Nat} {fuel : Nat}
    (segment : Segment h.ref h.nextOf start chain none)
    (inside : ∀ cell ∈ chain, cell ≤ h.mask) (enough : chain.length ≤ fuel) :
    findBucket h test fuel start = some (chain.find? (fun cell => test (h.keyOf cell))) := by
  induction chain generalizing start fuel with
  | nil =>
    rw [segment]
    cases fuel <;> rfl
  | cons cell cells ih =>
    rcases segment with ⟨rfl, rest⟩
    cases fuel with
    | zero => simp at enough
    | succ fuel =>
      rw [findBucket, layout.cell?_ref (inside cell (mem_cons_self ..))]
      simp only [bind_eq_bind, bind_some]
      by_cases found : test (h.keyOf cell) = true
      · simp only [find?_cons, found]
        exact if_pos found
      simp only [find?_cons, found]
      have notFound : ¬ test (h.buckets cell).key = true := found
      rw [if_neg notFound]
      apply ih rest
      · exact (forall_mem_cons.mp inside).2
      · simpa using enough

theorem sameString_eq (lawful : LawfulKeys rt .string) (s s2 : W) :
    sameString rt (rt.keyHash .string s) s s2 = hashCompare rt .string s s2 := by
  simp only [sameString, hashCompare]
  by_cases samePointer : s = s2
  · rw [if_pos samePointer, if_pos samePointer]
  rw [if_neg samePointer, if_neg samePointer]
  by_cases hashEq : rt.keyHash .string s = rt.keyHash .string s2
  · rw [if_pos hashEq]
    by_cases encodingEq : rt.encoding s = rt.encoding s2
    · rw [if_pos encodingEq, lawful.bytes rfl encodingEq hashEq]
    · rw [if_neg encodingEq]
  rw [if_neg hashEq]
  cases equal : rt.keyEqual .string s s2 with
  | false => rfl
  | true =>
    have compared : hashCompare rt .string s s2 = true := by
      simp [hashCompare, samePointer, equal]
    exact absurd (lawful.hash compared) hashEq

theorem search_string_eq (lawful : LawfulKeys rt h.keyType)
    (isString : h.keyType = .string) (key : W) :
    hashGetBucketString rt h key (rt.keyHash h.keyType key) =
      hashSearch rt h key (rt.keyHash h.keyType key) := by
  have tests : sameString rt (rt.keyHash .string key) key = hashCompare rt .string key := by
    funext other
    apply sameString_eq
    rw [← isString]
    exact lawful
  rw [hashGetBucketString, hashSearch, isString, tests]

theorem hashFind_eq (lawful : LawfulKeys rt h.keyType) (key : W) :
    hashFind rt h key = hashSearch rt h key (rt.keyHash h.keyType key) := by
  rw [hashFind]
  by_cases isString : h.keyType = .string
  · exact (if_pos isString).trans (search_string_eq lawful isString key)
  · exact if_neg isString

/-- What a search says about the live cells. -/
inductive Found (rt : Runtime W) (h : Hash W) (live : List Nat) (key : W) : Option Nat → Prop
  | present {cell : Nat} : cell ∈ live → hashCompare rt h.keyType key (h.keyOf cell) = true →
      Found rt h live key (some cell)
  | absent : (∀ cell ∈ live, hashCompare rt h.keyType key (h.keyOf cell) = false) →
      Found rt h live key none

theorem hashFind_spec (lawful : LawfulKeys rt h.keyType)
    (layout : Layout rt h free live) (key : W) :
    ∃ bucket, hashFind rt h key = some bucket ∧ Found rt h live key bucket := by
  obtain ⟨chain, segment, perm⟩ :=
    layout.chains (rt.keyHash h.keyType key &&& h.mask) (Nat.and_le_right)
  have inside : ∀ cell ∈ chain, cell ≤ h.mask :=
    fun cell mem => layout.live_le (Layout.chain_mem perm |>.mp mem).1
  have found := findBucket_eq layout (hashCompare rt h.keyType key) segment inside
    (layout.chain_length_le perm)
  rw [hashFind_eq lawful, hashSearch, layout.slot?_eq (Nat.and_le_right)]
  simp only [bind_eq_bind, bind_some]
  rw [found]
  apply Exists.intro _
  apply And.intro rfl
  cases search : chain.find? (fun cell => hashCompare rt h.keyType key (h.keyOf cell)) with
  | some cell =>
    apply Found.present
    · exact (Layout.chain_mem perm |>.mp (mem_of_find?_eq_some search)).1
    · have test := find?_some search
      exact test
  | none =>
    apply Found.absent
    intro cell mem
    cases equal : hashCompare rt h.keyType key (h.keyOf cell) with
    | false => rfl
    | true =>
      -- an equal key has an equal hash, so its cell is in the chain searched
      have sameSlot : h.location rt cell = rt.keyHash h.keyType key &&& h.mask := by
        rw [Hash.location, lawful.hash equal]
      have inChain := (Layout.chain_mem perm).mpr ⟨mem, sameSlot⟩
      exact absurd equal (find?_eq_none.mp search cell inChain)

end

end RakudoStar.Parrot
