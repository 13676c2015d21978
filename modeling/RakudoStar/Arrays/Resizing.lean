import RakudoStar.Arrays.Qrpa

/-!
# Resizing a window

`set_integer_native` keeps the elements up to the new size. Behind them is null where it has
cleared the slots, else what stood there before.
-/

namespace RakudoStar.Arrays

open Foundation RakudoStar.Except List Nat

variable {α : Type} {q : Qrpa α} {slots : List (Option α)} {n more i : Nat}

/-- The elements. -/
def Qrpa.toList (q : Qrpa α) : List (Option α) := readRegion q.slots q.start q.elems

/-- The window lies in the slots. -/
def Qrpa.WellFormed (q : Qrpa α) : Prop := q.start + q.elems ≤ q.ssize

@[simp]
theorem length_toList (wellFormed : q.WellFormed) : q.toList.length = q.elems :=
  length_readRegion wellFormed

/-- What a window shows behind its elements after it has grown to a size. -/
inductive Fresh (q : Qrpa α) (n : Nat) : List (Option α) → Prop
  | cleared : Fresh q n (List.replicate (n - q.elems) none)
  | exposed : q.start + n ≤ q.ssize →
      Fresh q n (readRegion q.slots (q.start + q.elems) (n - q.elems))

theorem Fresh.length {fresh : List (Option α)}
    (isFresh : Fresh q n fresh) (wellFormed : q.WellFormed) : fresh.length = n - q.elems := by
  cases isFresh with
  | cleared => exact length_replicate
  | exposed room =>
    rcases le_total n q.elems with smaller | larger
    · rw [Nat.sub_eq_zero_of_le smaller]
      exact length_readRegion wellFormed
    · exact length_readRegion (by rw [add_assoc, Nat.add_sub_cancel' larger]; exact room)

theorem memmove_ok {target source count : Nat}
    (targetRoom : target + count ≤ slots.length) (sourceRoom : source + count ≤ slots.length) :
    memmove slots target source count =
      .ok (overwrite slots target (readRegion slots source count)) := by
  rw [memmove, if_pos]
  · rfl
  · exact ⟨Int.natCast_nonneg _, by exact_mod_cast targetRoom, Int.natCast_nonneg _,
      by exact_mod_cast sourceRoom⟩

theorem load_ok (inside : i < slots.length) : load slots i = .ok slots[i] := by
  rw [load, getElem?_eq_getElem inside]

theorem store_ok (inside : i < slots.length)
    (value : Option α) : store slots i value = .ok (slots.set i value) :=
  if_pos inside

theorem le_grownSize (ssize n : Nat) : n ≤ grownSize ssize n := by
  rw [grownSize]
  split
  · exact le_trans (Nat.le_max_right _ _) (Nat.le_max_left _ _)
  · rw [mul_comm]
    omega

theorem readRegion_append_replicate {cells : List (Option α)}
    (larger : cells.length ≤ n) (enough : n ≤ cells.length + more) :
    readRegion (cells ++ List.replicate more none) 0 n =
      cells ++ List.replicate (n - cells.length) none := by
  rw [readRegion, drop_zero, take_append, take_of_length_le larger,
    take_replicate, Nat.min_eq_left (Nat.sub_le_iff_le_add'.mpr enough)]

theorem shiftOffEmptySlots_eq (wellFormed : q.WellFormed) : shiftOffEmptySlots q =
      .ok ⟨q.elems, 0, q.toList ++ replicate (q.ssize - q.elems) none⟩ := by
  have start : q.elems ≤ q.ssize := le_of_add_left_le wellFormed
  by_cases some : 0 < q.elems
  · have moved : memmove q.slots 0 q.start q.elems = .ok (overwrite q.slots 0 q.toList) :=
      @memmove_ok _ _ 0 q.start q.elems (by rw [zero_add]; exact start) wellFormed
    have cells : (overwrite q.slots 0 q.toList).take q.elems = q.toList := by
      rw [overwrite, take_zero, nil_append, ← length_toList wellFormed, take_left]
    rw [shiftOffEmptySlots, if_pos some, moved]
    simp only [ok_bind, fillNull, cells]
  · have none : q.elems = 0 := Nat.eq_zero_of_not_pos some
    rw [shiftOffEmptySlots, if_neg some, Qrpa.toList, none]
    rfl

/-- The array after a change of its size. -/
structure Resized (q : Qrpa α) (n : Nat) (result : Qrpa α) : Prop where
  wellFormed : result.WellFormed
  elems : result.elems = n
  toList : ∃ fresh, Fresh q n fresh ∧ result.toList = q.toList.take n ++ fresh
  start : q.start = 0 → result.start = 0

theorem Resized.of_cleared {result : Qrpa α} (wellFormed : q.WellFormed)
    (larger : q.elems ≤ n) (start : result.start = 0) (elems : result.elems = n)
    (slots : result.slots = q.toList ++ replicate more none) (enough : n ≤ q.elems + more) :
    Resized q n result := by
  have length := length_toList wellFormed
  rw [← length] at larger enough
  refine ⟨?_, elems, ⟨_, .cleared, ?_⟩, fun _ => start⟩
  · rw [Qrpa.WellFormed, Qrpa.ssize, slots, length_append, length_replicate, start, elems, zero_add]
    exact enough
  · rw [Qrpa.toList, start, elems, slots, readRegion_append_replicate larger enough, length,
      take_of_length_le larger]

theorem slots_setElems {cleared : Nat} (more : q.ssize < n)
    (inside : q.elems ≤ cleared) (below : cleared ≤ q.ssize)
    (isCleared : q.slots.take cleared = q.toList ++ replicate (cleared - q.elems) none) :
    (setElems q cleared n).slots =
      q.toList ++ List.replicate (grownSize q.ssize n - q.elems) none := by
  have grown : cleared ≤ grownSize q.ssize n :=
    le_trans below (le_trans (le_of_lt more) (le_grownSize q.ssize n))
  rw [setElems, if_neg (Nat.not_le.mpr more), fillNull, isCleared, append_assoc,
    ← replicate_add, Nat.add_comm, Nat.sub_add_sub_cancel grown inside]

theorem setElems_start (q : Qrpa α) (cleared n : Nat) : (setElems q cleared n).start = q.start := by
  rw [setElems]
  split <;> rfl

theorem setElems_elems (q : Qrpa α) (cleared n : Nat) : (setElems q cleared n).elems = n := by
  rw [setElems]
  split <;> rfl

theorem resized_of_moved (wellFormed : q.WellFormed) (larger : q.elems ≤ n) :
    Resized q n (setElems ⟨q.elems, 0, q.toList ++ replicate (q.ssize - q.elems) none⟩
      q.ssize n) := by
  have length := length_toList wellFormed
  have inside : q.elems ≤ q.ssize := le_of_add_left_le wellFormed
  have ssize : Qrpa.ssize ⟨q.elems, 0, q.toList ++ replicate (q.ssize - q.elems) none⟩ =
      q.ssize := by
    rw [Qrpa.ssize, length_append, length_replicate, length, Nat.add_sub_cancel' inside]
  by_cases enough : n ≤ q.ssize
  · rw [setElems, ssize, if_pos enough]
    exact .of_cleared wellFormed larger rfl rfl rfl
      (by rw [Nat.add_sub_cancel' inside]; exact enough)
  have moved : Qrpa.toList ⟨q.elems, 0, q.toList ++ replicate (q.ssize - q.elems) none⟩ =
      q.toList := by
    rw [Qrpa.toList, readRegion, drop_zero, ← length, take_left]
  have grown := le_grownSize q.ssize n
  have slots := slots_setElems (lt_of_le_of_lt (le_of_eq ssize) (not_le.mp enough))
    inside (le_of_eq ssize.symm) (by rw [moved, take_of_length_le (le_of_eq ssize)])
  rw [moved, ssize] at slots
  exact .of_cleared wellFormed larger (setElems_start _ _ _) (setElems_elems _ _ _) slots
    (Nat.le_trans grown (Nat.sub_le_iff_le_add'.mp (Nat.le_refl _)))

theorem setIntegerNative_resized (wellFormed : q.WellFormed) (n : Nat) :
    ∃ result, setIntegerNative q n = .ok result ∧ Resized q n result := by
  have length := length_toList wellFormed
  have nonnegative : ¬ (n : Int) < 0 := Int.not_lt.mpr (Int.natCast_nonneg n)
  rw [setIntegerNative, if_neg nonnegative, Int.toNat_natCast]
  by_cases same : n = q.elems
  · refine ⟨q, if_pos same, wellFormed, same.symm, ⟨[], ?_, ?_⟩, id⟩
    · have none := @Fresh.cleared _ q n
      rw [same, Nat.sub_self] at none
      rw [same]
      exact none
    · rw [same, append_nil, take_of_length_le (le_of_eq length)]
  rw [if_neg same]
  by_cases shiftOff : 0 < q.start ∧ q.ssize < n + q.start
  · have larger : q.elems ≤ n := by
      have before := lt_of_le_of_lt wellFormed shiftOff.2
      rw [Nat.add_comm n] at before
      exact Nat.le_of_lt (Nat.lt_of_add_lt_add_left before)
    rw [if_pos shiftOff, shiftOffEmptySlots_eq wellFormed, ok_bind]
    exact ⟨_, rfl, resized_of_moved wellFormed larger⟩
  rw [if_neg shiftOff]
  refine ⟨_, rfl, ?_⟩
  by_cases room : q.start + n ≤ q.ssize
  · rw [setElems, if_pos (le_trans (Nat.le_add_left n q.start) room)]
    refine ⟨room, rfl, ⟨_, .exposed room, ?_⟩, id⟩
    rcases le_total n q.elems with smaller | larger
    · rw [Nat.sub_eq_zero_of_le smaller, Qrpa.toList, Qrpa.toList, take_readRegion _ _ smaller]
      exact (append_nil _).symm
    · rw [take_of_length_le (le_trans (le_of_eq length) larger), Qrpa.toList,
        Qrpa.toList, ← readRegion_add, Nat.add_sub_cancel' larger]
  have start : q.start = 0 := by
    by_contra notZero
    rw [add_comm] at room
    exact shiftOff ⟨Nat.pos_of_ne_zero notZero, not_le.mp room⟩
  rw [start, zero_add] at room
  have inside : q.elems ≤ q.ssize := le_of_add_left_le wellFormed
  have more := not_le.mp room
  refine .of_cleared wellFormed (le_trans inside (le_of_lt more))
    ((setElems_start _ _ _).trans start) (setElems_elems _ _ _)
    (slots_setElems more (Nat.le_refl _) inside ?_)
    (Nat.le_trans (le_grownSize q.ssize n) (Nat.sub_le_iff_le_add'.mp (Nat.le_refl _)))
  rw [Qrpa.toList, start, Nat.sub_self, replicate_zero, append_nil]
  rfl

end RakudoStar.Arrays
