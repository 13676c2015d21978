import Mathlib.Data.List.Perm.Basic
import Mathlib.Data.List.FinRange

/-!
# The quick sort of arrays

The elements are compared by a function of the running program, which may keep a state and need
not be consistent. An index outside a call's elements is a fault.
-/

namespace RakudoStar.Sorting

open List Option Nat

variable {State Element : Type} {data : List Element}

/-- Above zero when the first element is the bigger one. -/
abbrev Compare (State Element : Type) : Type :=
  Element → Element → State → Int × State

/-- Swap two elements. -/
def swap (data : List Element) (i j : Nat) : Option (List Element) := do
  let temp ← data[i]?
  let other ← data[j]?
  some ((data.set i other).set j temp)

/-- `do --j; while (j > 0 && COMPARE(data[j], data[0]) > 0);` A `--j` of zero is a fault. -/
def scanDown (compare : Compare State Element) (data : List Element) :
    Nat → State → Option (Nat × State)
  | 0, _ => none
  | j + 1, state =>
    if 0 < j then do
      let element ← data[j]?
      let pivot ← data[0]?
      let (answer, state) := compare element pivot state
      if 0 < answer then scanDown compare data j state else some (j, state)
    else some (j, state)

/-- `do ++i; while (i < j && COMPARE(data[i], data[0]) < 0);`, with the distance from `i` to
`j`. -/
def scanUp (compare : Compare State Element) (data : List Element) :
    Nat → Nat → State → Option (Nat × State)
  | 0, i, state => some (i + 1, state)
  | 1, i, state => some (i + 1, state)
  | gap + 2, i, state => do
    let element ← data[i + 1]?
    let pivot ← data[0]?
    let (answer, state) := compare element pivot state
    if answer < 0 then scanUp compare data (gap + 1) (i + 1) state else some (i + 1, state)

/-- The loop that exchanges elements on the wrong sides of the pivot, with the last `j`. -/
def exchange (compare : Compare State Element) :
    Nat → List Element → Nat → Nat → State → Option (List Element × Nat × State)
  | 0, _, _, _, _ => none
  | fuel + 1, data, i, j, state => do
    let (j, state) ← scanDown compare data j state
    let (i, state) ← scanUp compare data (j - i) i state
    if j ≤ i then some (data, j, state)
    else do
      let data ← swap data i j
      exchange compare fuel data i j state

/-- One round of the outer loop: the middle element becomes the pivot and gets its place. -/
def partition (compare : Compare State Element) (data : List Element) (state : State) :
    Option (List Element × Nat × State) := do
  let data ← swap data 0 (data.length / 2)
  let (data, j, state) ← exchange compare data.length data 0 data.length state
  let data ← swap data j 0
  some (data, j, state)

/-- The smaller part is sorted by a call, the other one by the next round. -/
def quicksortRounds (compare : Compare State Element) :
    Nat → List Element → State → Option (List Element × State)
  | 0, _, _ => none
  | fuel + 1, data, state =>
    if 1 < data.length then do
      let (data, j, state) ← partition compare data state
      let pivot ← data[j]?
      let ln := j
      let rn := data.length - (j + 1)
      if ln < rn then do
        let (left, state) ← quicksortRounds compare fuel (data.take ln) state
        let (right, state) ← quicksortRounds compare fuel (data.drop (j + 1)) state
        some (left ++ pivot :: right, state)
      else do
        let (right, state) ← quicksortRounds compare fuel (data.drop (j + 1)) state
        let (left, state) ← quicksortRounds compare fuel (data.take ln) state
        some (left ++ pivot :: right, state)
    else some (data, state)

/-- `Parrot_util_quicksort`: no part has more rounds than it has elements. -/
def quicksort (compare : Compare State Element) (data : List Element) (state : State) :
    Option (List Element × State) :=
  quicksortRounds compare (data.length + 1) data state

/-- The comparison function answers what `order` says, whatever its state. -/
def Answers (compare : Compare State Element) (order : Element → Element → Int) : Prop :=
  ∀ a b state, (compare a b state).1 = order a b

theorem swap_spec {i j : Nat} (insideLeft : i < data.length)
    (insideRight : j < data.length) : ∃ swapped, swap data i j = some swapped ∧ swapped.Perm data ∧
      ∀ k, swapped[k]? = if k = j then data[i]? else if k = i then data[j]? else data[k]? := by
  refine ⟨(data.set i data[j]).set j data[i], ?_, set_set_perm insideLeft insideRight,
    fun k => ?_⟩
  · rw [swap, getElem?_eq_getElem insideLeft, getElem?_eq_getElem insideRight]
    rfl
  by_cases atRight : k = j
  · rw [if_pos atRight, atRight, getElem?_eq_getElem insideLeft,
      getElem?_set_self (by rwa [length_set])]
  rw [if_neg atRight, getElem?_set_ne (Ne.symm atRight)]
  by_cases atLeft : k = i
  · rw [if_pos atLeft, atLeft, getElem?_eq_getElem insideRight, getElem?_set_self insideLeft]
  · rw [if_neg atLeft, getElem?_set_ne (Ne.symm atLeft)]

variable {pivot : Element} {order : Element → Element → Int} {i j left right fuel : Nat}
  {pivot : Element} (compare : Compare State Element)

theorem scanDown_spec (first : data[0]? = some pivot) (positive : 0 < j) (inside : j ≤ data.length)
    (state : State) : ∃ stop after, scanDown compare data j state = some (stop, after) ∧ stop < j ∧
      ∀ order, Answers compare order →
        (∀ k x, stop < k → k < j → data[k]? = some x → 0 < order x pivot) ∧
        (0 < stop → ∀ x, data[stop]? = some x → order x pivot ≤ 0) := by
  induction j generalizing state with
  | zero => exact absurd positive (lt_irrefl 0)
  | succ j ih =>
    rw [scanDown]
    by_cases more : 0 < j
    · rw [if_pos more, getElem?_eq_getElem inside, first]
      by_cases bigger : 0 < (compare data[j] pivot state).1
      · rcases ih more (le_of_succ_le inside)
          (compare data[j] pivot state).2 with ⟨stop, after, run, below, facts⟩
        refine ⟨stop, after, ?_, lt_succ_of_lt below, fun order answers => ⟨?_, ?_⟩⟩
        · simp only [bind_eq_bind, bind_some, if_pos bigger, run]
        · intro k x above within found
          rcases lt_or_eq_of_le (le_of_lt_succ within) with lower | rfl
          · exact (facts order answers).1 k x above lower found
          · rw [getElem?_eq_getElem inside, some.injEq] at found
            rwa [← found, ← answers _ _ state]
        · exact (facts order answers).2
      refine ⟨j, (compare data[j] pivot state).2, ?_, lt_succ_self j,
        fun order answers => ⟨?_, ?_⟩⟩
      · simp only [bind_eq_bind, bind_some, if_neg bigger]
      · intro k x above within
        exact absurd (le_of_lt_succ within) above.not_ge
      intro _ x found
      rw [getElem?_eq_getElem inside, some.injEq] at found
      rw [← found, ← answers _ _ state]
      exact not_lt.mp bigger
    · refine ⟨j, state, if_neg more, lt_succ_self j, fun order _ => ⟨?_, ?_⟩⟩
      · intro k x above within
        exact absurd (le_of_lt_succ within) above.not_ge
      · exact fun positive => absurd positive more

theorem scanUp_spec
    (first : data[0]? = some pivot) (gap i : Nat) (inside : i + gap ≤ data.length) (state : State) :
    ∃ stop after, scanUp compare data gap i state = some (stop, after) ∧ i < stop ∧
      (stop = i + 1 ∨ stop ≤ i + gap) ∧ ∀ order, Answers compare order →
        (∀ k x, i < k → k < stop → data[k]? = some x → order x pivot < 0) ∧
        (stop < i + gap → ∀ x, data[stop]? = some x → 0 ≤ order x pivot) := by
  have noneBetween : ∀ (order : Element → Element → Int) (k : Nat) (x : Element), i < k →
      k < i + 1 → data[k]? = some x → order x pivot < 0 := by
    intro order k x above within
    exact absurd (le_of_lt_succ within) above.not_ge
  induction gap using Nat.twoStepInduction generalizing i state with
  | zero =>
    refine ⟨i + 1, state, rfl, lt_succ_self i, .inl rfl, fun order _ =>
      ⟨noneBetween order, fun below => ?_⟩⟩
    exact absurd (le_of_succ_le below) (not_succ_le_self i)
  | one =>
    refine ⟨i + 1, state, rfl, lt_succ_self i, .inl rfl, fun order _ =>
      ⟨noneBetween order, fun below => ?_⟩⟩
    exact absurd below (lt_irrefl (i + 1))
  | more gap _ ih =>
    have here : i + 1 < data.length := by omega
    rw [scanUp, getElem?_eq_getElem here, first]
    by_cases smaller : (compare data[i + 1] pivot state).1 < 0
    · rcases ih (i + 1) (by omega) (compare data[i + 1] pivot state).2
        (fun order k x above within => absurd (le_of_lt_succ within) above.not_ge)
        with ⟨stop, after, run, above, place, facts⟩
      refine ⟨stop, after, ?_, lt_of_succ_lt above, .inr (by omega),
        fun order answers => ⟨?_, ?_⟩⟩
      · simp only [bind_eq_bind, bind_some, if_pos smaller, run]
      · intro k x beyond within found
        rcases Nat.lt_or_eq_of_le beyond with later | rfl
        · exact (facts order answers).1 k x later within found
        · rw [succ_eq_add_one, getElem?_eq_getElem here, some.injEq] at found
          rwa [← found, ← answers _ _ state]
      · intro below
        exact (facts order answers).2 (by omega)
    refine ⟨i + 1, (compare data[i + 1] pivot state).2, ?_, lt_succ_self i, .inl rfl,
      fun order answers => ⟨noneBetween order, ?_⟩⟩
    · simp only [bind_eq_bind, bind_some, if_neg smaller]
    intro _ x found
    rw [getElem?_eq_getElem here, some.injEq] at found
    rw [← found, ← answers _ _ state]
    exact not_lt.mp smaller

/-- The elements up to `i` do not belong after the pivot, those from `j` on not before it. -/
structure Halves (order : Element → Element → Int) (data : List Element) (pivot : Element)
    (i j : Nat) : Prop where
  low : ∀ k x, 0 < k → k ≤ i → data[k]? = some x → order x pivot ≤ 0
  high : ∀ k x, j ≤ k → data[k]? = some x → 0 ≤ order x pivot

theorem Halves.exchanged {swapped : List Element}
    (halves : Halves order data pivot i j) (crossed : left < right)
    (lows : ∀ k x, i < k → k < left → data[k]? = some x → order x pivot < 0)
    (highs : ∀ k x, right < k → k < j → data[k]? = some x → 0 < order x pivot)
    (large : ∀ x, data[left]? = some x → 0 ≤ order x pivot)
    (small : ∀ x, data[right]? = some x → order x pivot ≤ 0) (lookup : ∀ k, swapped[k]? =
      if k = right then data[left]? else if k = left then data[right]? else data[k]?) :
    Halves order swapped pivot left right where
  low k x positive within found := by
    rw [lookup k, if_neg (within.trans_lt crossed).ne] at found
    by_cases atLeft : k = left
    · rw [if_pos atLeft] at found
      exact small x found
    rw [if_neg atLeft] at found
    rcases lt_or_ge i k with later | earlier
    · exact le_of_lt (lows k x later (lt_of_le_of_ne within atLeft) found)
    · exact halves.low k x positive earlier found
  high k x beyondRight found := by
    rw [lookup k] at found
    by_cases atRight : k = right
    · rw [if_pos atRight] at found
      exact large x found
    rw [if_neg atRight, if_neg (crossed.trans_le beyondRight).ne'] at found
    rcases lt_or_ge k j with earlier | later
    · exact le_of_lt (highs k x (lt_of_le_of_ne beyondRight (Ne.symm atRight)) earlier found)
    · exact halves.high k x later found

theorem Halves.met (halves : Halves order data pivot i j) (crossed : right ≤ left)
    (lows : ∀ k x, i < k → k < left → data[k]? = some x → order x pivot < 0)
    (highs : ∀ k x, right < k → k < j → data[k]? = some x → 0 < order x pivot)
    (small : 0 < right → ∀ x, data[right]? = some x → order x pivot ≤ 0) :
    Halves order data pivot right (right + 1) where
  low k x positive within found := by
    rcases lt_or_eq_of_le within with below | rfl
    · rcases lt_or_ge i k with later | earlier
      · exact le_of_lt (lows k x later (below.trans_le crossed) found)
      · exact halves.low k x positive earlier found
    · exact small positive x found
  high k x beyond found := by
    rcases lt_or_ge k j with earlier | later
    · exact le_of_lt (highs k x beyond earlier found)
    · exact halves.high k x later found

theorem exchange_spec (first : data[0]? = some pivot) (ordered : i < j) (inside : j ≤ data.length)
    (enough : j ≤ fuel) (state : State) :
    ∃ exchanged place after, exchange compare fuel data i j state = some (exchanged, place, after) ∧
      exchanged.Perm data ∧ exchanged[0]? = some pivot ∧ place < data.length ∧
      ∀ order, Answers compare order → Halves order data pivot i j →
        Halves order exchanged pivot place (place + 1) := by
  induction fuel generalizing data i j state with
  | zero => exact absurd (ordered.trans_le enough) (not_lt_zero i)
  | succ fuel ih =>
    rcases scanDown_spec compare first (zero_lt_of_lt ordered) inside state with
      ⟨right, between, down, rightBelow, downFacts⟩
    rcases scanUp_spec compare first (right - i) i (by omega) between with
      ⟨left, after, up, leftAbove, leftPlace, upFacts⟩
    rw [exchange, down]
    simp only [bind_eq_bind, bind_some, up]
    by_cases crossed : right ≤ left
    · refine ⟨data, right, after, if_pos crossed, List.Perm.refl data, first,
        rightBelow.trans_le inside, fun order answers halves => ?_⟩
      exact halves.met crossed (upFacts order answers).1 (downFacts order answers).1
        (downFacts order answers).2
    have apart : left < right := not_le.mp crossed
    rcases swap_spec (show left < data.length by omega) (show right < data.length by omega)
      with ⟨swapped, swapRun, swapPerm, lookup⟩
    have firstKept : swapped[0]? = some pivot := by
      rw [lookup 0, if_neg (by omega), if_neg (by omega), first]
    rcases ih firstKept apart
      (show right ≤ swapped.length by rw [swapPerm.length_eq]; omega) (by omega) after with
      ⟨exchanged, place, last, run, perm, firstLast, placeInside, facts⟩
    refine ⟨exchanged, place, last, ?_, perm.trans swapPerm, firstLast, ?_,
      fun order answers halves => facts order answers ?_⟩
    · rw [if_neg crossed, swapRun]
      exact run
    · rwa [← swapPerm.length_eq]
    · exact halves.exchanged apart (upFacts order answers).1
        (downFacts order answers).1 ((upFacts order answers).2 (by omega))
        ((downFacts order answers).2 (zero_lt_of_lt apart)) lookup

theorem partition_spec (several : 1 < data.length) (state : State) :
    ∃ below pivot above after, partition compare data state =
        some (below ++ pivot :: above, below.length, after) ∧ (below ++ pivot :: above).Perm data ∧
      ∀ order, Answers compare order →
        (∀ x ∈ below, order x pivot ≤ 0) ∧ ∀ x ∈ above, 0 ≤ order x pivot := by
  have positive : 0 < data.length := zero_lt_of_lt several
  have middleInside : data.length / 2 < data.length := Nat.div_lt_self positive Nat.one_lt_two
  rcases swap_spec positive middleInside with ⟨started, startRun, startPerm, -⟩
  have startLength := startPerm.length_eq
  have startPositive : 0 < started.length := startLength ▸ positive
  obtain ⟨pivot, first⟩ : ∃ pivot, started[0]? = some pivot :=
    ⟨started[0], getElem?_eq_getElem startPositive⟩
  rcases exchange_spec compare first positive (le_of_eq startLength.symm)
    (le_refl data.length) state with
    ⟨exchanged, place, after, run, perm, firstKept, placeInside, facts⟩
  have length : exchanged.length = data.length := perm.length_eq.trans startLength
  rcases swap_spec (show place < exchanged.length by omega) (show 0 < exchanged.length by omega)
    with ⟨placed, placeRun, placedPerm, lookup⟩
  have pivotPlaced : placed[place]? = some pivot := by
    rw [lookup place]
    split
    · next atZero => rw [atZero, firstKept]
    · rw [if_pos rfl, firstKept]
  have inside : place < placed.length := by rwa [placedPerm.length_eq, perm.length_eq]
  have middle : placed[place] = pivot := by
    rwa [getElem?_eq_getElem inside, some.injEq] at pivotPlaced
  have cut : placed = placed.take place ++ placed[place] :: placed.drop (place + 1) := by
    rw [← drop_eq_getElem_cons inside, take_append_drop]
  refine ⟨placed.take place, placed[place], placed.drop (place + 1), after, ?_, ?_,
    fun order answers => ?_⟩
  · rw [partition, startRun]
    simp only [bind_eq_bind, bind_some, startLength, run, placeRun]
    rw [← cut, length_take_of_le inside.le]
  · rw [← cut]
    exact (placedPerm.trans perm).trans startPerm
  have halves := facts order answers ⟨fun k x above within => absurd within (by omega),
    fun k x above found => by
      rw [getElem?_eq_none (by omega)] at found
      exact absurd found (by simp)⟩
  rw [middle]
  constructor
  · intro x member
    rcases mem_iff_getElem?.mp member with ⟨k, found⟩
    rw [getElem?_take] at found
    split at found
    · next below =>
        rw [lookup k] at found
        split at found
        · exact halves.low place x (zero_lt_of_lt below) le_rfl found
        next positive =>
          rw [if_neg below.ne] at found
          exact halves.low k x (Nat.pos_of_ne_zero positive) below.le found
    · exact absurd found (by simp)
  intro x member
  rcases mem_iff_getElem?.mp member with ⟨k, found⟩
  rw [getElem?_drop, lookup, if_neg (by omega), if_neg (by omega)] at found
  exact halves.high _ x (Nat.le_add_right _ k) found

/-- The sign of `order` is that of a total preorder. -/
structure TotalPreorder (order : Element → Element → Int) : Prop where
  reversed : ∀ a b, 0 < order a b ↔ order b a < 0
  trans : ∀ a b c, order a b ≤ 0 → order b c ≤ 0 → order a c ≤ 0

theorem TotalPreorder.atMost_reversed (total : TotalPreorder order) {a b : Element}
    (atLeast : 0 ≤ order a b) : order b a ≤ 0 := by
  apply not_lt.mp
  intro bigger
  exact absurd ((total.reversed b a).mp bigger) atLeast.not_gt

/-- No element stands after a bigger one. -/
def Ascending (order : Element → Element → Int) (data : List Element) : Prop :=
  data.Pairwise fun a b => order a b ≤ 0

theorem Ascending.join (total : TotalPreorder order) {left right : List Element}
    (leftSorted : Ascending order left) (rightSorted : Ascending order right)
    (leftLow : ∀ x ∈ left, order x pivot ≤ 0) (rightHigh : ∀ x ∈ right, 0 ≤ order x pivot) :
    Ascending order (left ++ pivot :: right) := by
  have pivotLow : ∀ x ∈ right, order pivot x ≤ 0 := fun x member =>
    total.atMost_reversed (rightHigh x member)
  apply pairwise_append.mpr
  refine ⟨leftSorted, pairwise_cons.mpr ⟨pivotLow, rightSorted⟩, fun a member b other => ?_⟩
  rcases mem_cons.mp other with rfl | later
  · exact leftLow a member
  · exact total.trans a pivot b (leftLow a member) (pivotLow b later)

/-- What a sort makes of its elements. -/
structure Sorts (compare : Compare State Element) (data sorted : List Element) : Prop where
  perm : sorted.Perm data
  ascending : ∀ order, Answers compare order → TotalPreorder order → Ascending order sorted

theorem Sorts.join {compare : Compare State Element} {below above left right : List Element}
    (perm : (below ++ pivot :: above).Perm data) (sides : ∀ order, Answers compare order →
      (∀ x ∈ below, order x pivot ≤ 0) ∧ ∀ x ∈ above, 0 ≤ order x pivot)
    (leftSorts : Sorts compare below left) (rightSorts : Sorts compare above right) :
    Sorts compare data (left ++ pivot :: right) where
  perm := (leftSorts.perm.append (rightSorts.perm.cons pivot)).trans perm
  ascending order answers total := by
    apply Ascending.join total (leftSorts.ascending order answers total)
      (rightSorts.ascending order answers total)
    · intro x member
      exact (sides order answers).1 x (leftSorts.perm.mem_iff.mp member)
    · intro x member
      exact (sides order answers).2 x (rightSorts.perm.mem_iff.mp member)

theorem quicksortRounds_spec (enough : data.length < fuel) (state : State) :
    ∃ sorted after, quicksortRounds compare fuel data state = some (sorted, after) ∧
      Sorts compare data sorted := by
  induction fuel generalizing data state with
  | zero => exact absurd enough (not_lt_zero _)
  | succ fuel ih =>
    rw [quicksortRounds]
    by_cases several : 1 < data.length
    · rcases partition_spec compare several state with
        ⟨below, pivot, above, between, run, perm, sides⟩
      have total : below.length + (above.length + 1) = data.length := by
        rw [← perm.length_eq, length_append, length_cons]
      have belowEnough : below.length < fuel := by omega
      have aboveEnough : above.length < fuel := by omega
      rw [if_pos several, run]
      simp only [bind_eq_bind, bind_some,
        getElem?_append_right le_rfl, Nat.sub_self, getElem?_cons_zero,
        take_left', List.drop_append, drop_eq_nil_of_le (le_succ _),
        nil_append, Nat.add_sub_cancel_left, drop_succ_cons, drop_zero]
      split
      · rcases ih belowEnough between with ⟨left, middle, leftRun, leftSorts⟩
        rcases ih aboveEnough middle with ⟨right, after, rightRun, rightSorts⟩
        exact ⟨left ++ pivot :: right, after, by rw [leftRun, bind_some, rightRun]; rfl,
          Sorts.join perm sides leftSorts rightSorts⟩
      rcases ih aboveEnough between with ⟨right, middle, rightRun, rightSorts⟩
      rcases ih belowEnough middle with ⟨left, after, leftRun, leftSorts⟩
      exact ⟨left ++ pivot :: right, after, by rw [rightRun, bind_some, leftRun]; rfl,
        Sorts.join perm sides leftSorts rightSorts⟩
    · refine ⟨data, state, if_neg several, List.Perm.refl data, fun order _ _ => ?_⟩
      match data, several with
      | [], _ => exact List.Pairwise.nil
      | [x], _ => exact pairwise_singleton _ x
      | _ :: _ :: _, several => exact absurd (succ_lt_succ (succ_pos _)) several

/-- Every run ends, inside the array, with the elements in their order. -/
theorem quicksort_spec (data : List Element) (state : State) :
    ∃ sorted after, quicksort compare data state = some (sorted, after) ∧
      Sorts compare data sorted :=
  quicksortRounds_spec compare (lt_succ_self _) state

end RakudoStar.Sorting

namespace RakudoStar.Sorting

variable {Key : Type} {size : Nat} {key : Element → State → List Key × State}
  {order : Fin size → Fin size → Int} {item : Element → Key}

/-- The block given to `sort`, by the number of its parameters. -/
inductive Block (State Element Key : Type) where
  | unary (key : Element → State → List Key × State)
  | binary (order : Compare State Element)

/-- `$a <=> $b`, as the integer value of its `Order`. -/
def infixSpaceship {size : Nat} (a b : Fin size) : Int :=
  if a < b then -1 else if a = b then 0 else 1

/-- `… || $a <=> $b`. -/
def orIndex {size : Nat} (answer : Compare State (Fin size)) : Compare State (Fin size) :=
  fun a b state =>
    let (first, state) := answer a b state
    if first ≠ 0 then (first, state) else (infixSpaceship a b, state)

/-- `self.map($by).eager`, which flattens what the block gives. -/
def mapEager (key : Element → State → List Key × State) : List Element → State → List Key × State
  | [], state => ([], state)
  | element :: rest, state =>
    let (items, state) := key element state
    let (others, state) := mapEager key rest state
    (items ++ others, state)

/-- `List.sort`, where `infixCmp` is `cmp`, also of items that a list does not have. -/
def sort (infixCmp : Compare State (Option Key)) (self : List Element)
    (block : Block State Element Key) (state : State) : Option (List Element × State) := do
  let index := List.finRange self.length
  let (index, state) ←
    match block with
    | .unary key =>
      let (list, state) := mapEager key self state
      quicksort (orIndex fun a b => infixCmp list[a.val]? list[b.val]?) index state
    | .binary order => quicksort (orIndex fun a b => order (self.get a) (self.get b)) index state
  some (index.map self.get, state)

theorem infixSpaceship_neg_iff (a b : Fin size) : infixSpaceship a b < 0 ↔ a < b := by
  unfold infixSpaceship
  split
  · next below => exact ⟨fun _ => below, fun _ => by decide⟩
  next notBelow =>
    split
    all_goals exact ⟨fun negative => absurd negative (by decide),
      fun below => absurd below notBelow⟩

theorem infixSpaceship_pos_iff (a b : Fin size) : 0 < infixSpaceship a b ↔ b < a := by
  unfold infixSpaceship
  split
  · next below =>
      exact ⟨fun positive => absurd positive (by decide), fun above =>
        absurd (below.trans above) (lt_irrefl a)⟩
  next notBelow =>
    split
    · next same =>
        exact ⟨fun positive => absurd positive (by decide), fun above =>
          absurd above (same ▸ lt_irrefl a)⟩
    next different =>
      exact ⟨fun _ => lt_of_le_of_ne (not_lt.mp notBelow) (Ne.symm different), fun _ => by decide⟩

def tieBroken {size : Nat} (order : Fin size → Fin size → Int) (a b : Fin size) : Int :=
  if order a b ≠ 0 then order a b else infixSpaceship a b

theorem orIndex_answers {answer : Compare State (Fin size)}
    (answers : Answers answer order) : Answers (orIndex answer) (tieBroken order) := by
  intro a b state
  have first : (answer a b state).1 = order a b := answers a b state
  by_cases tie : order a b = 0
  · rw [tie] at first
    simp only [orIndex, tieBroken, first, tie, ne_eq, not_true, if_false]
  · simp only [orIndex, tieBroken, first, ne_eq, tie, not_false_iff, if_true]

theorem tieBroken_neg_iff (order : Fin size → Fin size → Int) (a b : Fin size) :
    tieBroken order a b < 0 ↔ order a b < 0 ∨ order a b = 0 ∧ a < b := by
  unfold tieBroken
  split
  · next nonzero =>
      exact ⟨.inl, fun cases => cases.elim id fun tie => absurd tie.1 nonzero⟩
  next zero =>
    have zero : order a b = 0 := not_not.mp zero
    rw [infixSpaceship_neg_iff, zero]
    exact ⟨fun below => .inr ⟨rfl, below⟩, fun cases => cases.elim
      (fun negative => absurd negative (lt_irrefl 0)) fun tie => tie.2⟩

theorem tieBroken_pos_iff (order : Fin size → Fin size → Int) (a b : Fin size) :
    0 < tieBroken order a b ↔ 0 < order a b ∨ order a b = 0 ∧ b < a := by
  unfold tieBroken
  split
  · next nonzero =>
      exact ⟨.inl, fun cases => cases.elim id fun tie => absurd tie.1 nonzero⟩
  next zero =>
    have zero : order a b = 0 := not_not.mp zero
    rw [infixSpaceship_pos_iff, zero]
    exact ⟨fun above => .inr ⟨rfl, above⟩, fun cases => cases.elim
      (fun positive => absurd positive (lt_irrefl 0)) fun tie => tie.2⟩

theorem TotalPreorder.tie_symm {order : Element → Element → Int} (total : TotalPreorder order)
    (a b : Element) : order a b = 0 ↔ order b a = 0 := by
  have one := total.reversed a b
  have other := total.reversed b a
  omega

theorem TotalPreorder.tie_between {order : Element → Element → Int} (total : TotalPreorder order)
    {a b c : Element} (low : order a b ≤ 0) (high : order b c ≤ 0) (tie : order a c = 0) :
    order a b = 0 ∧ order b c = 0 := by
  have back : order c a ≤ 0 := ((total.tie_symm a c).mp tie).le
  have lowBack : order b a ≤ 0 := total.trans b c a high back
  have highBack : order c b ≤ 0 := total.trans c a b back low
  have one := total.reversed b a
  have other := total.reversed c b
  omega

theorem TotalPreorder.tieBroken
    (total : TotalPreorder order) : TotalPreorder (tieBroken order) where
  reversed a b := by
    rw [tieBroken_pos_iff, tieBroken_neg_iff, total.reversed a b, total.tie_symm a b]
  trans a b c low high := by
    have notAbove : ∀ x y : Fin size, Sorting.tieBroken order x y ≤ 0 ↔
        order x y ≤ 0 ∧ (order x y = 0 → x ≤ y) := by
      intro x y
      rw [← not_lt, tieBroken_pos_iff, not_or, not_lt, not_and, not_lt]
    rw [notAbove] at low high ⊢
    refine ⟨total.trans a b c low.1 high.1, fun tie => ?_⟩
    rcases total.tie_between low.1 high.1 tie with ⟨first, second⟩
    exact le_trans (low.2 first) (high.2 second)

/-- The elements in order, equal ones as they came. -/
def IsStableSort (order : Element → Element → Int) (list sorted : List Element) : Prop :=
  ∃ index : List (Fin list.length), index.Perm (List.finRange list.length) ∧
    sorted = index.map list.get ∧
    index.Pairwise fun a b => order (list.get a) (list.get b) < 0 ∨
      order (list.get a) (list.get b) = 0 ∧ a < b

theorem quicksort_orIndex (answer : Compare State (Fin size)) (state : State) :
    ∃ index after, quicksort (orIndex answer) (List.finRange size) state = some (index, after) ∧
      index.Perm (List.finRange size) ∧ ∀ order, Answers answer order → TotalPreorder order →
        index.Pairwise fun a b => order a b < 0 ∨ order a b = 0 ∧ a < b := by
  rcases quicksort_spec (orIndex answer) (List.finRange size) state with ⟨index, after, run, sorts⟩
  refine ⟨index, after, run, sorts.perm, fun order answers total => ?_⟩
  have ascending := sorts.ascending _ (orIndex_answers answers) total.tieBroken
  have distinct : index.Nodup := sorts.perm.nodup_iff.mpr (List.nodup_finRange size)
  apply (List.Pairwise.and ascending distinct).imp
  rintro a b ⟨atMost, different⟩
  apply (tieBroken_neg_iff order a b).mp
  apply lt_of_le_of_ne atMost
  intro zero
  have notBelow := (tieBroken_neg_iff order a b).not.mp (le_of_eq zero.symm).not_gt
  have notAbove := (tieBroken_pos_iff order a b).not.mp zero.le.not_gt
  have tie : order a b = 0 := le_antisymm (not_lt.mp fun positive => notAbove (.inl positive))
    (not_lt.mp fun negative => notBelow (.inl negative))
  exact different (le_antisymm (not_lt.mp fun above => notAbove (.inr ⟨tie, above⟩))
    (not_lt.mp fun below => notBelow (.inr ⟨tie, below⟩)))

theorem mapEager_single
    (single : ∀ element state, (key element state).1 = [item element]) (self : List Element)
    (state : State) : (mapEager key self state).1 = self.map item := by
  induction self generalizing state with
  | nil => rfl
  | cons element rest ih =>
    rw [mapEager, List.map_cons]
    simp only [single, ih, List.singleton_append]

/-- A block of one parameter that gives one item for each element. -/
theorem sort_unary {infixCmp : Compare State (Option Key)}
    (single : ∀ element state, (key element state).1 = [item element])
    {cmp : Option Key → Option Key → Int} (answers : Answers infixCmp cmp)
    (total : TotalPreorder fun a b : Key => cmp (some a) (some b)) (self : List Element)
    (state : State) : ∃ sorted after, sort infixCmp self (.unary key) state = some (sorted, after) ∧
      IsStableSort (fun a b => cmp (some (item a)) (some (item b))) self sorted := by
  have items := mapEager_single single self state
  have lookup : ∀ a : Fin self.length,
      (mapEager key self state).1[a.val]? = some (item (self.get a)) := by
    intro a
    rw [items, List.getElem?_map, List.getElem?_eq_getElem a.isLt]
    rfl
  rcases quicksort_orIndex (fun a b => infixCmp (mapEager key self state).1[a.val]?
    (mapEager key self state).1[b.val]?) (mapEager key self state).2 with
    ⟨index, after, run, perm, stable⟩
  refine ⟨index.map self.get, after, ?_, index, perm, rfl, ?_⟩
  · simp only [sort, Option.bind_eq_bind, run, Option.bind_some]
  refine stable (fun a b => cmp (some (item (self.get a))) (some (item (self.get b)))) ?_
    ⟨fun a b => total.reversed _ _, fun a b c => total.trans _ _ _⟩
  intro a b between
  simp only [lookup]
  exact answers _ _ between

theorem sort_unary_pairs : ∃ sorted after,
    sort (fun a b calls => (a.getD 0 - b.getD 0, calls + 1)) [(2, 'a'), (1, 'b'), (2, 'c')]
        (.unary fun pair calls => ([pair.1], calls + 1)) 0 = some (sorted, after) ∧
      IsStableSort (fun a b => (some a.1).getD 0 - (some b.1).getD 0)
        [(2, 'a'), (1, 'b'), (2, 'c')] sorted :=
  @sort_unary (Int × Char) Nat Int _ Prod.fst _ (fun _ _ => rfl)
    (fun a b => a.getD 0 - b.getD 0) (fun _ _ _ => rfl)
    ⟨fun a b => by simp only [Option.getD]; omega,
      fun a b c => by simp only [Option.getD]; omega⟩ _ _

end RakudoStar.Sorting
