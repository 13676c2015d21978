import Mathlib.Data.List.GetD

/-!
# The quick sort of the NFA runner

The segments still to be sorted are on a stack of bounded size; the sort gives up when it is
full.
-/

namespace RakudoStar.QRegex

open List Nat

def maxLevels : Nat := 100

/-- `while (arr[R] >= piv && L < R) R--;` -/
def scanDown (arr : List Int) (piv : Int) (low : Nat) : Nat → Nat
  | 0 => 0
  | high + 1 =>
    if low < high + 1 ∧ piv ≤ arr.getD (high + 1) 0 then scanDown arr piv low high
    else high + 1

/-- `while (arr[L] <= piv && L < R) L++;`, with the distance from `L` to `R`. -/
def scanUp (arr : List Int) (piv : Int) : Nat → Nat → Nat
  | 0, low => low
  | gap + 1, low => if arr.getD low 0 ≤ piv then scanUp arr piv gap (low + 1) else low

/-- The loop that moves elements to either side of the pivot. -/
def partition (piv : Int) : Nat → List Int → Nat → Nat → Option (List Int × Nat)
  | 0, _, _, _ => none
  | fuel + 1, arr, low, high =>
    if low < high then
      let right := scanDown arr piv low high
      if low < right then
        let moved := arr.set low (arr.getD right 0)
        let left := scanUp moved piv (right - (low + 1)) (low + 1)
        if left < right then
          partition piv fuel (moved.set right (moved.getD left 0)) left (right - 1)
        else partition piv fuel moved left right
      else partition piv fuel arr low right
    else some (arr.set low piv, low)

/-- The loop over the levels, the last one first: the array, and whether it was sorted. -/
def sortLevels : Nat → List Int → List (Nat × Nat) → Option (List Int × Bool)
  | 0, _, _ => none
  | _ + 1, arr, [] => some (arr, true)
  | fuel + 1, arr, (low, high) :: levels =>
    if low < high - 1 then
      if levels.length = maxLevels - 1 then some (arr, false)
      else
        match partition (arr.getD low 0) (high - low) arr low (high - 1) with
        | none => none
        | some (arr, middle) =>
          sortLevels fuel arr ((middle + 1, high) :: (low, middle) :: levels)
    else sortLevels fuel arr levels

def quicksort (arr : List Int) : Option (List Int × Bool) :=
  sortLevels (2 * arr.length + 2) arr [(0, arr.length)]

theorem getD_set {α : Type} (arr : List α) (i j : Nat) (x : α) {fallback : α}
    (inside : i < arr.length) :
    (arr.set i x).getD j fallback = if j = i then x else arr.getD j fallback := by
  by_cases same : j = i
  · subst same
    rw [if_pos rfl, getD_eq_getElem?_getD, getElem?_set_self inside]
    rfl
  · rw [if_neg same, getD_eq_getElem?_getD, getElem?_set_ne (Ne.symm same), getD_eq_getElem?_getD]

variable {low fuel middle : Nat}

theorem scanDown_spec (arr : List Int) (piv : Int) (high : Nat)
    (inOrder : low ≤ high) : low ≤ scanDown arr piv low high ∧ scanDown arr piv low high ≤ high ∧
      (∀ i, scanDown arr piv low high < i → i ≤ high → piv ≤ arr.getD i 0) ∧
      (low < scanDown arr piv low high → arr.getD (scanDown arr piv low high) 0 < piv) := by
  induction high with
  | zero =>
    exact ⟨inOrder, Nat.le_refl 0, fun i above below => absurd above (Nat.not_lt.mpr below),
      fun above => absurd above (Nat.not_lt_zero low)⟩
  | succ high ih =>
    unfold scanDown
    split
    · next goesOn =>
        rcases ih (le_of_lt_succ goesOn.1) with ⟨atLeast, atMost, large, stop⟩
        refine ⟨atLeast, le_succ_of_le atMost, fun i above below => ?_, stop⟩
        rcases Nat.lt_or_eq_of_le below with inside | rfl
        · exact large i above (le_of_lt_succ inside)
        · exact goesOn.2
    · next stops =>
        exact ⟨inOrder, Nat.le_refl _, fun i above below => absurd above (Nat.not_lt.mpr below),
          fun above => Int.not_le.mp fun large => stops ⟨above, large⟩⟩

theorem scanUp_spec (arr : List Int) (piv : Int) (gap low : Nat) :
    low ≤ scanUp arr piv gap low ∧ scanUp arr piv gap low ≤ low + gap ∧
      (∀ i, low ≤ i → i < scanUp arr piv gap low → arr.getD i 0 ≤ piv) ∧
      (scanUp arr piv gap low < low + gap → piv < arr.getD (scanUp arr piv gap low) 0) := by
  induction gap generalizing low with
  | zero =>
    exact ⟨Nat.le_refl low, Nat.le_refl low, fun i above below =>
      absurd below (Nat.not_lt.mpr above), fun below => absurd below (Nat.lt_irrefl low)⟩
  | succ gap ih =>
    unfold scanUp
    split
    · next goesOn =>
        rcases ih (low + 1) with ⟨atLeast, atMost, small, stop⟩
        refine ⟨le_of_succ_le atLeast, by omega, fun i above below => ?_,
          fun below => stop (by omega)⟩
        rcases Nat.lt_or_eq_of_le above with inside | rfl
        · exact small i inside below
        · exact goesOn
    · next stops =>
        exact ⟨Nat.le_refl low, Nat.le_add_right _ _, fun i above below =>
          absurd below (Nat.not_lt.mpr above), fun _ => Int.not_le.mp stops⟩

variable {arr : List Int} {high : Nat} {levels : List (Nat × Nat)} {piv : Int}
  {after : List Int}

theorem move_perm {hole place : Nat} (piv : Int) (holeInside : hole < arr.length)
    (placeInside : place < arr.length) (apart : hole ≠ place) :
    ((arr.set hole (arr.getD place 0)).set place piv).Perm (arr.set hole piv) := by
  have holeInside' : hole < (arr.set hole piv).length := by rwa [length_set]
  have placeInside' : place < (arr.set hole piv).length := by rwa [length_set]
  have swapped := set_set_perm holeInside' placeInside'
  rw [set_set, getElem_set_self, getElem_set_ne apart] at swapped
  rw [getD_eq_getElem _ _ placeInside]
  exact swapped

/-- What has become of an array whose hole at `low` has taken the pivot. -/
structure Partitioned (piv : Int) (arr : List Int) (low high : Nat) (after : List Int)
    (middle : Nat) : Prop where
  atLeast : low ≤ middle
  atMost : middle ≤ high
  perm : after.Perm (arr.set low piv)
  outside : ∀ i, i < low ∨ high < i → after.getD i 0 = arr.getD i 0
  pivot : after.getD middle 0 = piv
  left : ∀ i, low ≤ i → i < middle → after.getD i 0 ≤ piv
  right : ∀ i, middle < i → i ≤ high → piv ≤ after.getD i 0
  inside : ∀ i, low ≤ i → i ≤ high → ∃ j, low ≤ j ∧ j ≤ high ∧
    after.getD i 0 = (arr.set low piv).getD j 0

/-- One pass, which moves the elements at `right` and `left` into the hole. -/
theorem Partitioned.pass {left right : Nat}
    (inside : high < arr.length) (leftBelow : low < left) (leftRight : left < right)
    (rightBelow : right ≤ high) (smallRight : arr.getD right 0 ≤ piv)
    (small : ∀ i, low < i → i < left → arr.getD i 0 ≤ piv)
    (large : ∀ i, right < i → i ≤ high → piv ≤ arr.getD i 0) (largeLeft : piv ≤ arr.getD left 0)
    (later : Partitioned piv ((arr.set low (arr.getD right 0)).set right (arr.getD left 0))
      left (right - 1) after middle) : Partitioned piv arr low high after middle := by
  have lowInside : low < arr.length := by omega
  have rightInside : right < (arr.set low (arr.getD right 0)).length := by
    rw [length_set]
    omega
  have leftInside : left < (arr.set low (arr.getD right 0)).length := by
    rw [length_set]
    omega
  have moved : ∀ i, ((arr.set low (arr.getD right 0)).set right (arr.getD left 0)).getD i 0 =
      if i = right then arr.getD left 0 else if i = low then arr.getD right 0
      else arr.getD i 0 := by
    intro i
    rw [getD_set _ _ _ _ rightInside, getD_set _ _ _ _ lowInside]
  have atLeast := later.atLeast
  have atMost := later.atMost
  have outside : ∀ i, i < left ∨ right - 1 < i → after.getD i 0 = _ :=
    fun i apart => (later.outside i apart).trans (moved i)
  refine ⟨by omega, by omega, ?_, fun i apart => ?_, later.pivot, fun i above below => ?_,
    fun i above below => ?_, fun i above below => ?_⟩
  · have first := move_perm piv rightInside leftInside (by omega)
    rw [getD_set _ _ _ _ lowInside, if_neg (by omega)] at first
    exact (later.perm.trans first).trans (move_perm piv lowInside (by omega) (by omega))
  · rw [outside i (by omega), if_neg (by omega), if_neg (by omega)]
  · by_cases old : i < left
    · rw [outside i (.inl old), if_neg (by omega)]
      by_cases hole : i = low
      · rw [if_pos hole]
        exact smallRight
      · rw [if_neg hole]
        exact small i (by omega) old
    · exact later.left i (by omega) below
  · by_cases old : right - 1 < i
    · rw [outside i (.inr old)]
      by_cases hole : i = right
      · rw [if_pos hole]
        exact largeLeft
      · rw [if_neg hole, if_neg (by omega)]
        exact large i (by omega) below
    · exact later.right i above (by omega)
  · have original : ∀ j, low < j → (arr.set low piv).getD j 0 = arr.getD j 0 := by
      intro j above
      rw [getD_set _ _ _ _ lowInside, if_neg (by omega)]
    by_cases old : i < left ∨ right - 1 < i
    · rw [outside i old]
      by_cases atRight : i = right
      · exact ⟨left, by omega, by omega, by rw [if_pos atRight, original left leftBelow]⟩
      rw [if_neg atRight]
      by_cases atLow : i = low
      · exact ⟨right, by omega, rightBelow, by rw [if_pos atLow, original right (by omega)]⟩
      · exact ⟨i, above, below, by rw [if_neg atLow, original i (by omega)]⟩
    rcases later.inside i (by omega) (by omega) with ⟨j, leftOf, rightOf, same⟩
    rw [getD_set _ _ _ _ (by rwa [length_set]), moved] at same
    by_cases hole : j = left
    · refine ⟨low, Nat.le_refl low, by omega, ?_⟩
      rw [same, if_pos hole, getD_set _ _ _ _ lowInside, if_pos rfl]
    · refine ⟨j, by omega, by omega, ?_⟩
      rw [same, if_neg hole, if_neg (by omega), if_neg (by omega), original j (by omega)]

theorem Partitioned.last (inside : high < arr.length)
    (above : low < middle) (below : middle ≤ high) (smallMiddle : arr.getD middle 0 ≤ piv)
    (small : ∀ i, low < i → i < middle → arr.getD i 0 ≤ piv)
    (large : ∀ i, middle < i → i ≤ high → piv ≤ arr.getD i 0) :
    Partitioned piv arr low high ((arr.set low (arr.getD middle 0)).set middle piv) middle := by
  have lowInside : low < arr.length := by omega
  have middleInside : middle < (arr.set low (arr.getD middle 0)).length := by
    rw [length_set]
    omega
  have moved : ∀ i, ((arr.set low (arr.getD middle 0)).set middle piv).getD i 0 =
      if i = middle then piv else if i = low then arr.getD middle 0 else arr.getD i 0 := by
    intro i
    rw [getD_set _ _ _ _ middleInside, getD_set _ _ _ _ lowInside]
  refine ⟨Nat.le_of_lt above, below, move_perm piv lowInside (by omega) (by omega),
    fun i apart => ?_, by rw [moved, if_pos rfl], fun i after before => ?_,
    fun i after before => ?_, fun i after before => ?_⟩
  · rw [moved, if_neg (by omega), if_neg (by omega)]
  · rw [moved, if_neg (by omega)]
    by_cases hole : i = low
    · rw [if_pos hole]
      exact smallMiddle
    · rw [if_neg hole]
      exact small i (by omega) before
  · rw [moved, if_neg (by omega), if_neg (by omega)]
    exact large i after before
  rw [moved]
  by_cases atMiddle : i = middle
  · refine ⟨low, Nat.le_refl low, by omega, ?_⟩
    rw [if_pos atMiddle, getD_set _ _ _ _ lowInside, if_pos rfl]
  rw [if_neg atMiddle]
  by_cases atLow : i = low
  · refine ⟨middle, by omega, below, ?_⟩
    rw [if_pos atLow, getD_set _ _ _ _ lowInside, if_neg (by omega)]
  · refine ⟨i, after, before, ?_⟩
    rw [if_neg atLow, getD_set _ _ _ _ lowInside, if_neg atLow]

theorem Partitioned.first (inOrder : low ≤ high)
    (inside : high < arr.length) (large : ∀ i, low < i → i ≤ high → piv ≤ arr.getD i 0) :
    Partitioned piv arr low high (arr.set low piv) low := by
  have moved : ∀ i, (arr.set low piv).getD i 0 = if i = low then piv else arr.getD i 0 :=
    fun i => getD_set arr low i piv (by omega)
  refine ⟨Nat.le_refl low, inOrder, List.Perm.refl _, fun i apart => ?_,
    by rw [moved, if_pos rfl], fun i above below => absurd below (Nat.not_lt.mpr above),
    fun i above below => ?_, fun i above below => ⟨i, above, below, rfl⟩⟩
  · rw [moved, if_neg (by omega)]
  · rw [moved, if_neg (by omega)]
    exact large i above below

/-- What is known between two passes: two elements that are in no common segment are in
order. -/
structure Levels (arr : List Int) (levels : List (Nat × Nat)) : Prop where
  bounds : ∀ level ∈ levels, level.1 ≤ level.2 ∧ level.2 ≤ arr.length
  apart : levels.Pairwise fun later earlier => earlier.2 ≤ later.1
  inOrder : ∀ i j, i < j → j < arr.length →
    (∃ level ∈ levels, level.1 ≤ i ∧ j < level.2) ∨ arr.getD i 0 ≤ arr.getD j 0

/-- The number of elements in the segments. -/
def sizes : List (Nat × Nat) → Nat
  | [] => 0
  | level :: levels => (level.2 - level.1) + sizes levels

theorem Levels.pop (known : Levels arr ((low, high) :: levels))
    (short : ¬ low < high - 1) : Levels arr levels where
  bounds := (forall_mem_cons.mp known.bounds).2
  apart := (pairwise_cons.mp known.apart).2
  inOrder := fun i j before inside => by
    rcases known.inOrder i j before inside with ⟨level, mem, above, below⟩ | sorted
    · rcases mem_cons.mp mem with rfl | later
      · omega
      · exact .inl ⟨level, later, above, below⟩
    · exact .inr sorted

theorem Levels.split (known : Levels arr ((low, high) :: levels)) (proper : low < high - 1)
    (partitioned : Partitioned (arr.getD low 0) arr low (high - 1) after middle) :
    Levels after ((middle + 1, high) :: (low, middle) :: levels) := by
  have length : after.length = arr.length := by
    rw [partitioned.perm.length_eq, length_set]
  have highInside : high ≤ arr.length := (known.bounds _ mem_cons_self).2
  rcases pairwise_cons.mp known.apart with ⟨before, apart⟩
  have atLeast := partitioned.atLeast
  have atMost := partitioned.atMost
  have same : ∀ j, (arr.set low (arr.getD low 0)).getD j 0 = arr.getD j 0 := by
    intro j
    rw [getD_set _ _ _ _ (by omega)]
    by_cases hole : j = low
    · rw [if_pos hole, hole]
    · rw [if_neg hole]
  have outside : ∀ i, i < low ∨ high - 1 < i → after.getD i 0 = arr.getD i 0 := partitioned.outside
  have inside : ∀ i, low ≤ i → i ≤ high - 1 →
      ∃ j, low ≤ j ∧ j ≤ high - 1 ∧ after.getD i 0 = arr.getD j 0 := by
    intro i above below
    rcases partitioned.inside i above below with ⟨j, leftOf, rightOf, equal⟩
    exact ⟨j, leftOf, rightOf, equal.trans (same j)⟩
  -- an element of the segment is in order with every element outside
  have sorted : ∀ i j, i < j → j < arr.length → (i < low ∧ low ≤ j ∨ i < high ∧ high ≤ j) →
      arr.getD i 0 ≤ arr.getD j 0 := by
    intro i j ahead within crossing
    rcases known.inOrder i j ahead within with ⟨level, mem, above, below⟩ | sorted
    · rcases mem_cons.mp mem with rfl | earlier
      · omega
      · have leftOf := before level earlier
        omega
    · exact sorted
  refine ⟨?_, ?_, fun i j ahead within => ?_⟩
  · intro level mem
    rw [length]
    rcases mem_cons.mp mem with rfl | mem
    · exact ⟨by omega, highInside⟩
    rcases mem_cons.mp mem with rfl | mem
    · exact ⟨atLeast, by omega⟩
    · exact known.bounds level (mem_cons_of_mem _ mem)
  · have toRest : ∀ level ∈ levels, level.2 ≤ low := before
    refine .cons (fun level mem => ?_) (.cons toRest apart)
    rcases mem_cons.mp mem with rfl | mem
    · exact le_succ middle
    · exact Nat.le_trans (toRest level mem) (by omega)
  rw [length] at within
  by_cases iInside : low ≤ i ∧ i ≤ high - 1
  · by_cases jInside : j ≤ high - 1
    · by_cases toLeft : j < middle
      · exact .inl ⟨_, mem_cons_of_mem _ mem_cons_self, iInside.1, toLeft⟩
      by_cases toRight : middle < i
      · exact .inl ⟨_, mem_cons_self, toRight, by omega⟩
      right
      have below : after.getD i 0 ≤ arr.getD low 0 := by
        rcases Nat.lt_or_eq_of_le (Nat.not_lt.mp toRight) with left | rfl
        · exact partitioned.left i iInside.1 left
        · exact Int.le_of_eq partitioned.pivot
      have above : arr.getD low 0 ≤ after.getD j 0 := by
        rcases Nat.lt_or_eq_of_le (Nat.not_lt.mp toLeft) with right | rfl
        · exact partitioned.right j right jInside
        · exact Int.le_of_eq partitioned.pivot.symm
      exact Int.le_trans below above
    · rcases inside i iInside.1 iInside.2 with ⟨i', leftOf, rightOf, equal⟩
      rw [equal, outside j (by omega)]
      exact .inr (sorted i' j (by omega) within (by omega))
  · rw [outside i (by omega)]
    by_cases jInside : low ≤ j ∧ j ≤ high - 1
    · rcases inside j jInside.1 jInside.2 with ⟨j', leftOf, rightOf, equal⟩
      rw [equal]
      exact .inr (sorted i j' (by omega) (by omega) (by omega))
    rw [outside j (by omega)]
    rcases known.inOrder i j ahead within with ⟨level, mem, above, below⟩ | old
    · rcases mem_cons.mp mem with rfl | earlier
      · omega
      · exact .inl ⟨level, mem_cons_of_mem _ (mem_cons_of_mem _ earlier), above, below⟩
    · exact .inr old

end RakudoStar.QRegex
