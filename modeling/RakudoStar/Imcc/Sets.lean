import Mathlib.Data.Finset.Lattice.Basic
import Mathlib.Data.Finset.Range
import Mathlib.Data.Nat.Find
import Mathlib.Order.Bounds.Basic
import RakudoStar.Foundation.Except

/-!
# Sets of numbers as bitmaps

A bitmap has one byte more than its length has whole bytes. The functions that combine two sets
loop over the whole bytes only.
-/

namespace RakudoStar.Imcc.Sets

open Function RakudoStar.Except

inductive Fault where
  /-- A byte behind a bitmap is read or written. -/
  | outside
  /-- A `PARROT_ASSERT` finds two lengths that differ. -/
  | lengths

/-- A set with the bytes of its bitmap, of which `size` are allocated. -/
structure BitSet where
  length : Nat
  size : Nat
  bmp : Nat → BitVec 8

def numBytes (length : Nat) : Nat := length / 8 + 1

def BitSet.read (s : BitSet) (i : Nat) : Except Fault (BitVec 8) :=
  if i < s.size then .ok (s.bmp i) else .error .outside

def BitSet.write (s : BitSet) (i : Nat) (byte : BitVec 8) : Except Fault BitSet :=
  if i < s.size then .ok { s with bmp := update s.bmp i byte } else .error .outside

def bitInByte (element : Nat) : BitVec 8 := .twoPow 8 (element % 8)

def setMake (length : Nat) : BitSet := ⟨length, numBytes length, fun _ => 0⟩

def setMakeFull (length : Nat) : BitSet := ⟨length, numBytes length, fun _ => 0xff⟩

def setCopy (s : BitSet) : Except Fault BitSet :=
  if numBytes s.length ≤ s.size then .ok { s with size := numBytes s.length }
  else .error .outside

/-- `memcmp`, of so many bytes: are they the same? -/
def sameBytes (s1 s2 : BitSet) : Nat → Except Fault Bool
  | 0 => .ok true
  | i + 1 => do
    let same ← sameBytes s1 s2 i
    let left ← s1.read i
    let right ← s2.read i
    .ok (same && left = right)

/-- The bytes from the old size on are cleared. -/
def memSysReallocZeroed (s : BitSet) (size oldSize : Nat) : BitSet :=
  { s with size, bmp := fun i => if i < oldSize then s.bmp i else 0 }

/-- The bitmap with room for an element. -/
def setGrow (s : BitSet) (element : Nat) : BitSet :=
  if s.length / 8 < element / 8 then
    { memSysReallocZeroed s (numBytes element) (numBytes s.length) with length := s.length + 8 }
  else s

def setAdd (s : BitSet) (element : Nat) : Except Fault BitSet := do
  let byte ← (setGrow s element).read (element / 8)
  (setGrow s element).write (element / 8) (byte ||| bitInByte element)

def setContains (s : BitSet) (element : Nat) : Except Fault Bool :=
  if element > s.length then .ok false
  else do
    let byte ← s.read (element / 8)
    .ok (byte &&& bitInByte element ≠ 0)

/-- So many bytes of a set are replaced by those of two sets, combined. -/
def combineBytes (op : BitVec 8 → BitVec 8 → BitVec 8) (s1 s2 s : BitSet) :
    Nat → Except Fault BitSet
  | 0 => .ok s
  | i + 1 => do
    let s ← combineBytes op s1 s2 s i
    let left ← s1.read i
    let right ← s2.read i
    s.write i (op left right)

def combine (op : BitVec 8 → BitVec 8 → BitVec 8) (s1 s2 s : BitSet) : Except Fault BitSet :=
  if s1.length = s2.length then combineBytes op s1 s2 s (s1.length / 8) else .error .lengths

def setUnion (s1 s2 : BitSet) : Except Fault BitSet :=
  combine (· ||| ·) s1 s2 (setMake s1.length)

def setIntersec (s1 s2 : BitSet) : Except Fault BitSet :=
  combine (· &&& ·) s1 s2 (setMake s1.length)

/-- Each byte of the first set is read before it is replaced. -/
def setIntersecInplace (s1 s2 : BitSet) : Except Fault BitSet := combine (· &&& ·) s1 s2 s1

/-- The set that is meant in the last byte of a set. -/
def InTail (n : Nat) (s : BitSet) (x : Nat) : Prop := x < n ∧ s.length / 8 ≤ x / 8

/-- Calls make this bitmap, where this set of numbers is meant. -/
inductive Reaches (n : Nat) : BitSet → Finset Nat → Prop
  | make : Reaches n (setMake n) ∅
  | makeFull : Reaches n (setMakeFull n) (Finset.range n)
  | add {s t : BitSet} {A : Finset Nat} (element : Nat) (reaches : Reaches n s A)
    (ran : setAdd s element = .ok t) : Reaches n t (insert element A)
  | copy {s t : BitSet} {A : Finset Nat} (reaches : Reaches n s A) (ran : setCopy s = .ok t) :
    Reaches n t A
  | union {s t r : BitSet} {A B : Finset Nat} (left : Reaches n s A) (right : Reaches n t B)
    (ran : setUnion s t = .ok r) (tail : ∀ x, InTail n s x → x ∉ A ∪ B) : Reaches n r (A ∪ B)
  | intersec {s t r : BitSet} {A B : Finset Nat} (left : Reaches n s A) (right : Reaches n t B)
    (ran : setIntersec s t = .ok r) (tail : ∀ x, InTail n s x → x ∉ A ∩ B) : Reaches n r (A ∩ B)
  | intersecInplace {s t r : BitSet} {A B : Finset Nat} (left : Reaches n s A)
    (right : Reaches n t B) (ran : setIntersecInplace s t = .ok r)
    (tail : ∀ x, InTail n s x → x ∈ A → x ∈ B) : Reaches n r (A ∩ B)

def BitSet.bit (s : BitSet) (x : Nat) : Bool := (s.bmp (x / 8)).getLsbD (x % 8)

/-- Below `n` the bits are those of the set, and there is a byte behind the whole bytes. -/
structure Represents (n : Nat) (s : BitSet) (A : Finset Nat) : Prop where
  length : n ≤ s.length
  room : s.length / 8 < s.size
  bits : ∀ x < n, s.bit x = decide (x ∈ A)

variable {n : Nat} {s t r : BitSet} {A B C D : Finset Nat}

theorem small (x : Nat) : x % 8 < 8 := Nat.mod_lt x (by decide)

theorem ones : ∀ k < 8, (0xff : BitVec 8).getLsbD k = true := by decide

theorem read_ok {i : Nat} (inside : i < s.size) : s.read i = .ok (s.bmp i) := if_pos inside

theorem setContains_ok (room : s.length / 8 < s.size) (x : Nat) :
    setContains s x = .ok (decide (x ≤ s.length) && s.bit x) := by
  have nonzero : ∀ k < 8, BitVec.twoPow 8 k ≠ 0 := by decide
  unfold setContains
  split
  · rename_i beyond
    rw [decide_eq_false (Nat.not_le.mpr beyond)]
    rfl
  rename_i within
  rw [read_ok (by omega), ok_bind, decide_eq_true (Nat.not_lt.mp within), bitInByte,
    BitVec.and_twoPow, Bool.true_and]
  cases set : s.bit x with
  | true =>
    rw [BitSet.bit] at set
    rw [if_pos set, decide_eq_true (nonzero _ (small x))]
  | false =>
    rw [BitSet.bit] at set
    rw [set]
    rfl

theorem Represents.contains (represents : Represents n s A) {x : Nat} (below : x < n) :
    setContains s x = .ok (decide (x ∈ A)) := by
  rw [setContains_ok represents.room, represents.bits x below,
    decide_eq_true (below.le.trans represents.length), Bool.true_and]

theorem represents_setMake {size : Nat} (low : n ≤ size) : Represents n (setMake size) ∅ :=
  ⟨low, Nat.lt_succ_self _, fun _ _ => BitVec.getLsbD_zero⟩

theorem represents_setMakeFull (n : Nat) : Represents n (setMakeFull n) (Finset.range n) :=
  ⟨Nat.le_refl n, Nat.lt_succ_self _, fun x below =>
    (ones _ (small x)).trans (decide_eq_true (Finset.mem_range.mpr below)).symm⟩

theorem represents_setGrow (represents : Represents n s A) (element : Nat) :
    Represents n (setGrow s element) A ∧ element / 8 < (setGrow s element).size := by
  have low := represents.length
  have room := represents.room
  unfold setGrow
  split
  · refine ⟨⟨Nat.le_add_right_of_le low, ?_, fun x below => ?_⟩, Nat.lt_succ_self _⟩
    · simp only [memSysReallocZeroed, numBytes]
      omega
    have kept : x / 8 < numBytes s.length := by
      rw [numBytes]
      omega
    rw [← represents.bits x below]
    exact congrArg (fun byte : BitVec 8 => byte.getLsbD (x % 8)) (if_pos kept)
  · exact ⟨represents, by omega⟩

theorem setAdd_ok (represents : Represents n s A) (element : Nat) :
    ∃ added, setAdd s element = .ok added ∧ Represents n added (insert element A) := by
  obtain ⟨grown, inside⟩ := represents_setGrow represents element
  rw [setAdd, read_ok inside, ok_bind, BitSet.write, if_pos inside]
  refine ⟨_, rfl, grown.length, grown.room, fun x below => ?_⟩
  have bit := grown.bits x below
  rw [BitSet.bit] at bit ⊢
  dsimp only
  by_cases here : x / 8 = element / 8
  · rw [here] at bit ⊢
    rw [update_self, BitVec.getLsbD_or, bit, bitInByte, BitVec.getLsbD_twoPow]
    by_cases same : x = element
    · simp [same, small]
    · have apart : ¬ element % 8 = x % 8 := by omega
      simp [same, apart]
  · have apart : x ≠ element := fun same => here (congrArg (· / 8) same)
    rw [update_of_ne here, bit]
    simp [apart]

theorem setCopy_ok (represents : Represents n s A) :
    ∃ copy, setCopy s = .ok copy ∧ Represents n copy A :=
  ⟨_, if_pos represents.room, represents.length, Nat.lt_succ_self _, represents.bits⟩

section

variable {op : BitVec 8 → BitVec 8 → BitVec 8}

theorem combineBytes_ok {count : Nat} (left : count ≤ s.size) (right : count ≤ t.size)
    (room : count ≤ r.size) : combineBytes op s t r count =
      .ok { r with bmp := fun i => if i < count then op (s.bmp i) (t.bmp i) else r.bmp i } := by
  induction count with
  | zero => simp [combineBytes]
  | succ count ih =>
    rw [combineBytes, ih (by omega) (by omega) (by omega), ok_bind, read_ok left, ok_bind,
      read_ok right, ok_bind]
    refine (if_pos room).trans ?_
    congr 2
    funext i
    by_cases here : i = count
    · rw [here, update_self, if_pos (Nat.lt_succ_self _)]
    · have earlier : i < count + 1 ↔ i < count := by omega
      simp only [update_of_ne here, earlier]

theorem combine_ends {f : Bool → Bool → Bool}
    (bitwise : ∀ a b k, (op a b).getLsbD k = f (a.getLsbD k) (b.getLsbD k))
    (left : Represents n s A) (right : Represents n t B) (target : Represents n r C)
    (same : r.length = s.length) (meant : ∀ x, f (decide (x ∈ A)) (decide (x ∈ B)) = decide (x ∈ D))
    (tail : ∀ x, InTail n s x → (x ∈ C ↔ x ∈ D)) :
    Ends (· ≠ .outside) (Represents n · D) (combine op s t r) := by
  have roomLeft := left.room
  have roomRight := right.room
  have room := target.room
  unfold combine
  split
  · rw [combineBytes_ok (by omega) (by omega) (by omega)]
    refine ⟨target.length, room, fun x below => ?_⟩
    have bitLeft := left.bits x below
    have bitRight := right.bits x below
    have bit := target.bits x below
    rw [BitSet.bit] at bitLeft bitRight bit ⊢
    dsimp only
    split
    · rw [bitwise, bitLeft, bitRight, meant]
    · rename_i behind
      rw [bit]
      exact decide_eq_decide.mpr (tail x ⟨below, Nat.not_lt.mp behind⟩)
  · exact nofun

variable (left : Represents n s A) (right : Represents n t B)

include left right

theorem setUnion_ends (tail : ∀ x, InTail n s x → x ∉ A ∪ B) :
    Ends (· ≠ .outside) (Represents n · (A ∪ B)) (setUnion s t) :=
  combine_ends (fun _ _ _ => BitVec.getLsbD_or) left right (represents_setMake left.length) rfl
    (fun x => by simp) fun x inTail => iff_of_false (Finset.notMem_empty x) (tail x inTail)

theorem setIntersec_ends (tail : ∀ x, InTail n s x → x ∉ A ∩ B) :
    Ends (· ≠ .outside) (Represents n · (A ∩ B)) (setIntersec s t) :=
  combine_ends (fun _ _ _ => BitVec.getLsbD_and) left right (represents_setMake left.length) rfl
    (fun x => by simp) fun x inTail => iff_of_false (Finset.notMem_empty x) (tail x inTail)

theorem setIntersecInplace_ends (tail : ∀ x, InTail n s x → x ∈ A → x ∈ B) :
    Ends (· ≠ .outside) (Represents n · (A ∩ B)) (setIntersecInplace s t) :=
  combine_ends (fun _ _ _ => BitVec.getLsbD_and) left right left rfl (fun x => by simp)
    fun x inTail => by simpa using tail x inTail

end

theorem Reaches.represents (reaches : Reaches n s A) : Represents n s A := by
  induction reaches with
  | make => exact represents_setMake (Nat.le_refl n)
  | makeFull => exact represents_setMakeFull n
  | add element _ ran ih =>
    obtain ⟨added, ran', represents⟩ := setAdd_ok ih element
    cases ran.symm.trans ran'
    exact represents
  | copy _ ran ih =>
    obtain ⟨copy, ran', represents⟩ := setCopy_ok ih
    cases ran.symm.trans ran'
    exact represents
  | union _ _ ran tail left right =>
    have ends := setUnion_ends left right tail
    rw [ran] at ends
    exact ends
  | intersec _ _ ran tail left right =>
    have ends := setIntersec_ends left right tail
    rw [ran] at ends
    exact ends
  | intersecInplace _ _ ran tail left right =>
    have ends := setIntersecInplace_ends left right tail
    rw [ran] at ends
    exact ends

section

variable {i m count : Nat}

variable (room : s.length / 8 < s.size) (total : i + count = numBytes s.length)

include room

include total

end

end RakudoStar.Imcc.Sets
