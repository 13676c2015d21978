import RakudoStar.Arrays.Elements

/-!
# Splicing

The elements behind the replaced ones are moved before the window shrinks or after it has grown,
and the new ones copied between.
-/

namespace RakudoStar.Arrays

open Foundation RakudoStar.Except List Int

variable {α : Type}

theorem overwrite_set_succ {elements cells : List (Option α)} {i : Nat}
    (inside : i < elements.length) (value : Option α) :
    overwrite (elements.set i value) (i + 1) cells = overwrite elements i (value :: cells) := by
  obtain ⟨before, old, behind, rfl, rfl⟩ : ∃ before old behind,
      elements = before ++ old :: behind ∧ before.length = i :=
    ⟨elements.take i, elements[i], elements.drop (i + 1),
      by rw [getElem_cons_drop, take_append_drop],
      length_take_of_le (le_of_lt inside)⟩
  have place : before.length + 1 = (before ++ [value]).length := by rw [length_append]; rfl
  have written : (before ++ old :: behind).set before.length value =
      before ++ [value] ++ behind := by
    rw [set_append_right _ _ le_rfl, Nat.sub_self, set_cons_zero, append_assoc]
    rfl
  rw [written, place, overwrite_append, overwrite_append, length_cons, drop_succ_cons,
    append_assoc before]
  rfl

variable {shiftIter : Qrpa α → Nat → Except Failure (Option α)} {source : List (Option α)}

section

variable
  (iterates : ∀ (q : Qrpa α) {i : Nat} (_ : i < source.length), shiftIter q i = .ok source[i])

include iterates

theorem copyElements_eq {offset : Nat} (left : Nat) {i : Nat} {q : Qrpa α}
    (wellFormed : q.WellFormed) (all : i + left = source.length)
    (room : offset + source.length ≤ q.elems) :
    ∃ result, copyElements shiftIter offset left i q = .ok result ∧ result.WellFormed ∧
      result.toList = overwrite q.toList (offset + i) (source.drop i) := by
  induction left generalizing i q with
  | zero =>
    refine ⟨q, rfl, wellFormed, ?_⟩
    have none : source.drop i = [] := drop_of_length_le (le_of_eq all.symm)
    rw [none, overwrite, append_nil]
    exact (take_append_drop _ _).symm
  | succ left ih =>
    have inside : i < source.length := all ▸ Nat.lt_add_of_pos_right (Nat.succ_pos left)
    have place : offset + i < q.elems := Nat.lt_of_lt_of_le (Nat.add_lt_add_left inside offset) room
    obtain ⟨slots, stored, size, cells⟩ := store_toList wellFormed place source[i]
    have storedWellFormed : Qrpa.WellFormed { q with slots } := by
      rw [Qrpa.WellFormed, Qrpa.ssize, size]
      exact wellFormed
    have allLeft : i + 1 + left = source.length := by
      rw [← all, add_assoc, add_comm 1]
    obtain ⟨result, ran, isWellFormed, toList⟩ := ih storedWellFormed allLeft room
    refine ⟨result, ?_, isWellFormed, ?_⟩
    · rw [copyElements, iterates q inside, ok_bind, add_assoc, stored, ok_bind]
      exact ran
    have written : Qrpa.toList { q with slots } = q.toList.set (offset + i) source[i] := cells
    have bounded : offset + i < q.toList.length := by
      rw [length_toList wellFormed]
      exact place
    rw [toList, written, ← add_assoc, overwrite_set_succ bounded, drop_eq_getElem_cons inside]

end

variable {q : Qrpa α} {result : Qrpa α}

theorem memmove_toList (wellFormed : q.WellFormed) {target source count : Nat}
    (targetRoom : target + count ≤ q.elems) (sourceRoom : source + count ≤ q.elems) :
    ∃ slots, memmove q.slots (q.start + target : Nat) (q.start + source : Nat) count = .ok slots ∧
      Qrpa.WellFormed { q with slots } ∧ Qrpa.toList { q with slots } =
        overwrite q.toList target (readRegion q.toList source count) := by
  have within : ∀ {place : Nat}, place + count ≤ q.elems →
      q.start + place + count ≤ q.slots.length := by
    intro place room
    rw [Nat.add_assoc]
    exact Nat.le_trans (Nat.add_le_add_left room _) wellFormed
  have cells : readRegion q.toList source count = readRegion q.slots (q.start + source) count :=
    readRegion_readRegion q.slots sourceRoom
  have length : (readRegion q.toList source count).length = count := by
    rw [cells]
    exact length_readRegion (within sourceRoom)
  have room : q.start + target + (readRegion q.toList source count).length ≤ q.slots.length := by
    rw [length]
    exact within targetRoom
  rw [memmove_ok (within targetRoom) (within sourceRoom), ← cells]
  refine ⟨_, rfl, ?_, ?_⟩
  · rw [Qrpa.WellFormed, Qrpa.ssize, overwrite_length room]
    exact wellFormed
  · exact readRegion_overwrite_window wellFormed (by rw [length]; exact targetRoom)

theorem Resized.take_toList {n last : Nat} (resized : Resized q n result)
    (wellFormed : q.WellFormed) (exposes : q.ExposesNull last n) (below : last ≤ n) :
    result.toList.take last = (padTo last q.toList).take last := by
  have length := length_toList wellFormed
  obtain ⟨fresh, isFresh, toList⟩ := resized.toList
  rw [toList, padTo, length]
  rcases le_total last q.elems with inside | behind
  · rw [take_append_of_le_length, take_take, min_eq_left below,
      take_append_of_le_length (by rw [length]; exact inside)]
    rw [length_take, length]
    exact Nat.le_min.mpr ⟨below, inside⟩
  have whole : q.toList.take n = q.toList :=
    take_of_length_le (le_trans (le_of_eq length) (le_trans behind below))
  have place : last = q.toList.length + (last - q.elems) := by
    rw [length, Nat.add_sub_cancel' behind]
  rw [whole, place, take_length_add_append, take_length_add_append, ← place,
    isFresh.take_eq exposes below, take_replicate, min_self]

theorem Resized.toList_of_le {n : Nat} (resized : Resized q n result)
    (wellFormed : q.WellFormed) (smaller : n ≤ q.elems) : result.toList = q.toList.take n := by
  obtain ⟨fresh, isFresh, toList⟩ := resized.toList
  have none : fresh = [] := eq_nil_of_length_eq_zero
    ((isFresh.length wellFormed).trans (Nat.sub_eq_zero_of_le smaller))
  rw [toList, none, append_nil]

/-- What a splice at an offset makes of the elements. -/
def spliced (elements source : List (Option α)) (offset count : Nat) : List (Option α) :=
  (padTo offset elements).take offset ++ source ++ elements.drop (offset + count)

section

variable
  (iterates : ∀ (q : Qrpa α) {i : Nat} (_ : i < source.length), shiftIter q i = .ok source[i])

include iterates

theorem replaceElements_of_no_tail (wellFormed : q.WellFormed) {offset : Nat}
    {count : Int} (noTail : (q.elems : Int) ≤ offset + count)
    (exposes : q.ExposesNull offset (offset + source.length)) :
    ∃ result, replaceElements q source.length shiftIter offset count = .ok result ∧
      result.WellFormed ∧ result.toList = spliced q.toList source offset count.toNat := by
  have length := length_toList wellFormed
  have tail : ((q.elems : Int) - offset - count).toNat = 0 := by
    rw [toNat_eq_zero]
    omega
  obtain ⟨resized, ran, isResized⟩ := setIntegerNative_resized wellFormed (offset + source.length)
  obtain ⟨result, copied, isWellFormed, cells⟩ := copyElements_eq iterates source.length
    isResized.wellFormed (zero_add _) (le_of_eq isResized.elems.symm)
  refine ⟨result, ?_, isWellFormed, cells.trans ?_⟩
  · unfold replaceElements
    simp only [tail, lt_irrefl, false_and, if_false, ok_bind, add_zero]
    rw [ran, ok_bind]
    exact copied
  have none : resized.toList.drop (offset + source.length) = [] := by
    refine drop_of_length_le (le_of_eq ?_)
    rw [length_toList isResized.wellFormed, isResized.elems]
  have noneBehind : q.toList.drop (offset + count.toNat) = [] := by
    refine drop_of_length_le ?_
    rw [length]
    omega
  rw [spliced, noneBehind, overwrite, add_zero, drop_zero, none,
    isResized.take_toList wellFormed exposes (Nat.le_add_right _ _)]

theorem replaceElements_of_tail (wellFormed : q.WellFormed) {offset count : Nat}
    (hasTail : offset + count < q.elems) :
    ∃ result, replaceElements q source.length shiftIter offset count = .ok result ∧
      result.WellFormed ∧ result.toList = spliced q.toList source offset count := by
  have length := length_toList wellFormed
  obtain ⟨tail, tailEq⟩ := Nat.exists_eq_add_of_lt hasTail
  have tailSize : ((q.elems : Int) - offset - count).toNat = tail + 1 := by omega
  -- the last step is the same wherever the elements behind have come from
  have finish : ∀ {moved : Qrpa α} {front : List (Option α)}, moved.WellFormed →
      moved.elems = offset + source.length + (tail + 1) →
      moved.toList = front ++ q.toList.drop (offset + count) →
      front.length = offset + source.length → front.take offset = q.toList.take offset →
      ∃ result, copyElements shiftIter offset source.length 0 moved = .ok result ∧
        result.WellFormed ∧ result.toList = spliced q.toList source offset count := by
    intro moved front isWellFormed elems toList frontLength kept
    obtain ⟨result, copied, resultWellFormed, cells⟩ := copyElements_eq iterates source.length
      isWellFormed (zero_add _) (by rw [elems]; exact Nat.le_add_right _ _)
    refine ⟨result, copied, resultWellFormed, cells.trans ?_⟩
    have padded : (padTo offset q.toList).take offset = q.toList.take offset := by
      rw [padTo, take_append_of_le_length]
      omega
    have frontTake : (front ++ q.toList.drop (offset + count)).take offset =
        q.toList.take offset := by
      rw [take_append_of_le_length (by rw [frontLength]; exact Nat.le_add_right _ _), kept]
    rw [spliced, padded, toList, overwrite, add_zero, drop_zero, frontTake,
      ← frontLength, drop_left]
  have place : ∀ start more : Nat,
      (start : Int) + offset + more = (start + (offset + more) : Nat) :=
    fun start more => by rw [natCast_add, natCast_add, Int.add_assoc]
  have restLength : (q.toList.drop (offset + count)).length = tail + 1 := by
    rw [length_drop, length]
    omega
  have rest : ∀ more : List (Option α), readRegion (q.toList ++ more) (offset + count) (tail + 1) =
      q.toList.drop (offset + count) := by
    intro more
    rw [readRegion, drop_append_of_le_length (by omega), ← restLength, take_left]
  unfold replaceElements
  simp only [tailSize, Nat.zero_lt_succ, true_and, ofNat_lt, place]
  rcases lt_or_ge source.length count with shrinks | grows
  · have fits : offset + source.length ≤ q.toList.length := by omega
    obtain ⟨slots, moved, movedWellFormed, movedCells⟩ := @memmove_toList _ _ wellFormed
      (offset + source.length) (offset + count) (tail + 1) (by omega) (by omega)
    have whole := rest []
    rw [append_nil] at whole
    rw [whole] at movedCells
    obtain ⟨resized, ran, isResized⟩ :=
      setIntegerNative_resized movedWellFormed (offset + source.length + (tail + 1))
    have smaller : offset + source.length + (tail + 1) ≤ q.elems := by omega
    have cells := isResized.toList_of_le movedWellFormed smaller
    rw [movedCells, ← restLength, take_overwrite _ fits] at cells
    obtain ⟨result, copied, finished⟩ := finish isResized.wellFormed isResized.elems cells
      (length_take_of_le fits)
      (by rw [take_take, min_eq_left (Nat.le_add_right _ _)])
    refine ⟨result, ?_, finished⟩
    rw [if_pos shrinks, moved, ok_bind, ran, ok_bind, if_neg (lt_asymm shrinks), ok_bind]
    exact copied
  · obtain ⟨resized, ran, isResized⟩ :=
      setIntegerNative_resized wellFormed (offset + source.length + (tail + 1))
    obtain ⟨fresh, isFresh, toList⟩ := isResized.toList
    have freshLength := isFresh.length wellFormed
    rw [take_of_length_le (by omega)] at toList
    have resizedLength := length_toList isResized.wellFormed
    rw [isResized.elems] at resizedLength
    have fits : offset + source.length ≤ resized.toList.length := by
      rw [resizedLength]
      exact Nat.le_add_right _ _
    have front : (resized.toList.take (offset + source.length)).take offset =
        q.toList.take offset := by
      rw [take_take, min_eq_left (Nat.le_add_right _ _), toList,
        take_append_of_le_length (by omega)]
    rw [if_neg grows.not_gt, ok_bind, ran, ok_bind]
    rcases lt_or_eq_of_le grows with more | same
    · obtain ⟨slots, moved, movedWellFormed, movedCells⟩ := @memmove_toList _ _
        isResized.wellFormed (offset + source.length) (offset + count) (tail + 1)
        (le_of_eq isResized.elems.symm) (by rw [isResized.elems]; omega)
      have all : (overwrite resized.toList (offset + source.length)
          (q.toList.drop (offset + count))).take (offset + source.length + (tail + 1)) =
          overwrite resized.toList (offset + source.length) (q.toList.drop (offset + count)) := by
        refine take_of_length_le (le_of_eq ?_)
        rw [overwrite_length (by rw [restLength, resizedLength]), resizedLength]
      have written := take_overwrite (q.toList.drop (offset + count)) fits
      rw [restLength, all] at written
      rw [toList, rest fresh, ← toList, written] at movedCells
      obtain ⟨result, copied, finished⟩ := finish movedWellFormed isResized.elems movedCells
        (length_take_of_le fits) front
      refine ⟨result, ?_, finished⟩
      rw [if_pos more, moved, ok_bind]
      exact copied
    · have none : fresh = [] := eq_nil_of_length_eq_zero (by omega)
      have cells : resized.toList = resized.toList.take (offset + source.length) ++
          q.toList.drop (offset + count) := by
        conv_lhs => rw [← take_append_drop (offset + source.length) resized.toList]
        rw [toList, none, append_nil, same]
      obtain ⟨result, copied, finished⟩ := finish isResized.wellFormed isResized.elems cells
        (length_take_of_le fits) front
      refine ⟨result, ?_, finished⟩
      rw [if_neg (le_of_eq same.symm).not_gt, ok_bind]
      exact copied

end

theorem adjustStart_eq (wellFormed : q.WellFormed) (count elems1 : Nat) :
    ∃ (result : Qrpa α) (replaced : Nat), adjustStart q count elems1 = (result, (replaced : Int)) ∧
      result.WellFormed ∧ result.toList.drop replaced = q.toList.drop count := by
  have length := length_toList wellFormed
  rw [adjustStart]
  obtain ⟨n, nEq⟩ : ∃ n : Int, min ((elems1 : Int) - count) q.start = n := ⟨_, rfl⟩
  rw [nEq]
  by_cases allRemoved : n ≤ -q.elems
  · refine ⟨_, 0, if_pos allRemoved, Nat.zero_le _, ?_⟩
    exact (drop_of_length_le (by omega)).symm
  rw [if_neg allRemoved]
  by_cases moves : n ≠ 0
  · have replaced : ((count + n).toNat : Int) = count + n := toNat_of_nonneg (by omega)
    refine ⟨_, (count + n).toNat, (if_pos moves).trans (by rw [replaced]), ?_, ?_⟩
    · change (q.start - n).toNat + (q.elems + n).toNat ≤ q.ssize
      have inside : q.start + q.elems ≤ q.ssize := wellFormed
      omega
    -- the same slots, counted from another start
    have place : (q.start - n).toNat + (count + n).toNat = q.start + count := by omega
    have size : (q.elems + n).toNat - (count + n).toNat = q.elems - count := by omega
    rw [Qrpa.toList, Qrpa.toList, drop_readRegion, drop_readRegion, place, size]
  · exact ⟨q, count, if_neg moves, wellFormed, rfl⟩

/-- A splice meets the list: nothing is removed before the end, and what grows shows null. -/
def Qrpa.Splices (q : Qrpa α) (elems1 : Nat) (offset count : Int) : Prop :=
  let offset := if offset < 0 then offset + q.elems else offset
  0 ≤ offset → (0 ≤ count ∨ q.elems ≤ offset + count) ∧
    (¬ (count = 0 ∧ elems1 = 0) → q.ExposesNull offset.toNat (offset.toNat + elems1))

section

variable
  (iterates : ∀ (q : Qrpa α) {i : Nat} (_ : i < source.length), shiftIter q i = .ok source[i])

include iterates

theorem replaceElements_eq (wellFormed : q.WellFormed) {offset : Nat} {count : Int}
    (counted : 0 ≤ count ∨ (q.elems : Int) ≤ offset + count)
    (exposes : q.ExposesNull offset (offset + source.length)) :
    ∃ result, replaceElements q source.length shiftIter offset count = .ok result ∧
      result.WellFormed ∧ result.toList = spliced q.toList source offset count.toNat := by
  by_cases noTail : (q.elems : Int) ≤ offset + count
  · exact replaceElements_of_no_tail iterates wellFormed noTail exposes
  · obtain ⟨removed, rfl⟩ := eq_ofNat_of_zero_le (counted.resolve_right noTail)
    exact replaceElements_of_tail iterates wellFormed (by omega)

theorem splice_agrees (wellFormed : q.WellFormed) {offset count : Int}
    (sound : q.Splices source.length offset count) :
    Agrees (spliceElements q.toList source offset count >>= fun elements => .ok (.done, elements))
      (splice q source.length shiftIter offset count >>= fun q => .ok (.done, q)) := by
  have length := length_toList wellFormed
  rw [Qrpa.Splices] at sound
  rw [splice, spliceElements, length]
  generalize (if offset < 0 then offset + (q.elems : Int) else offset) = place at sound ⊢
  have nothing : (source.length = 0) ↔ source = [] := length_eq_zero_iff
  by_cases negative : place < 0
  · rw [if_pos negative, if_pos negative]
    rfl
  obtain ⟨start, rfl⟩ := eq_ofNat_of_zero_le (Int.not_lt.mp negative)
  obtain ⟨counted, exposes⟩ := sound (natCast_nonneg start)
  rw [toNat_natCast] at exposes
  rw [if_neg negative, if_neg negative, toNat_natCast]
  by_cases first : (start : Int) = 0
  · obtain rfl : start = 0 := ofNat_eq_zero.mp first
    obtain ⟨removed, rfl⟩ := eq_ofNat_of_zero_le (by omega : 0 ≤ count)
    obtain ⟨adjusted, replaced, adjustedEq, isWellFormed, kept⟩ :=
      adjustStart_eq wellFormed removed source.length
    -- both branches of the list are the source and what is behind the removed elements
    have elements : (if (removed : Int) = 0 ∧ source = [] then Except.ok q.toList
        else Except.ok ((padTo 0 q.toList).take 0 ++ source ++
          q.toList.drop (0 + (removed : Int).toNat)) : Except Failure _) =
        .ok (source ++ q.toList.drop removed) := by
      rw [toNat_natCast, zero_add, take_zero, nil_append]
      split
      · obtain ⟨zero, none⟩ := ‹_ ∧ _›
        rw [none, ofNat_eq_zero.mp zero]
        rfl
      · rfl
    rw [elements, if_pos first, adjustedEq, ok_bind]
    dsimp only
    by_cases done : (replaced : Int) = 0 ∧ source.length = 0
    · rw [if_pos done, nothing.mp done.2, ← kept, ofNat_eq_zero.mp done.1]
      exact ⟨isWellFormed, rfl⟩
    obtain ⟨result, ran, resultWellFormed, cells⟩ := replaceElements_eq iterates isWellFormed
      (.inl (natCast_nonneg replaced)) fun _ i _ below => absurd below (Nat.not_lt_zero i)
    have ran' : replaceElements adjusted source.length shiftIter 0 replaced = .ok result := ran
    rw [if_neg done, ran']
    refine ⟨resultWellFormed, ?_⟩
    rw [cells, spliced, toNat_natCast, zero_add, kept]
    rfl
  · rw [if_neg first]
    dsimp only
    by_cases done : count = 0 ∧ source.length = 0
    · rw [if_pos done, if_pos (done.imp_right nothing.mp)]
      exact ⟨wellFormed, rfl⟩
    obtain ⟨result, ran, resultWellFormed, cells⟩ := replaceElements_eq iterates wellFormed
      counted (exposes done)
    rw [if_neg done, if_neg fun both => done (both.imp_right nothing.mpr), ran]
    exact ⟨resultWellFormed, by rw [cells]; rfl⟩

end

end RakudoStar.Arrays

namespace RakudoStar.Arrays

open Foundation RakudoStar.Except

def Source.size (arrays : List (Qrpa α)) : Source α → Nat
  | .list values => values.length
  | .array i => (arrays[i]?.map Qrpa.elems).getD 0

/-- The state in which a request meets the list. -/
def Request.Sound (arrays : List (Qrpa α)) (own : Nat) (q : Qrpa α) : Request α → Prop
  | .set pos _ => q.ExposesNull pos.toNat (pos.toNat + 1)
  | .resize n => q.ExposesNull n.toNat n.toNat
  | .splice source offset count =>
    source ≠ .array own ∧ q.Splices (source.size arrays) offset count
  | _ => True

def Operation.Sound (arrays : List (Qrpa α)) : Operation α → Prop
  | .request i asked => ∀ q, arrays[i]? = some q → asked.Sound arrays i q
  | _ => True

/-- Every operation of a run is in such a state. -/
def RunSound (arrays : List (Qrpa α)) : List (Operation α) → Prop
  | [] => True
  | operation :: operations =>
    operation.Sound arrays ∧ RunSound (step arrays operation).2 operations

/-- The windows of all arrays lie in their slots. -/
def WellFormedStore (arrays : List (Qrpa α)) : Prop := ∀ q ∈ arrays, q.WellFormed

section

variable {arrays : List (Qrpa α)} (wellFormed : WellFormedStore arrays) {own : Nat}

include wellFormed

theorem Source.iterator_agrees {source : Source α} (other : source ≠ .array own) :
    (∃ failure, source.iterator arrays own = .error failure ∧
      source.elements (arrays.map Qrpa.toList) = .error failure) ∨
    ∃ elements shiftIter, source.iterator arrays own = .ok (elements.length, shiftIter) ∧
      source.elements (arrays.map Qrpa.toList) = .ok elements ∧
      source.size arrays = elements.length ∧
      ∀ (q : Qrpa α) {i : Nat} (_ : i < elements.length), shiftIter q i = .ok elements[i] := by
  cases source with
  | list values => exact .inr ⟨values, _, rfl, rfl, rfl, fun _ _ inside => load_ok inside⟩
  | array i =>
    have apart : i ≠ own := fun same => other (congrArg _ same)
    cases found : arrays[i]? with
    | none =>
      refine .inl ⟨.noSuchArray, ?_, ?_⟩
      · rw [Source.iterator, found]
      · rw [Source.elements, List.getElem?_map, found]
        rfl
    | some q =>
      have isWellFormed := wellFormed q (List.mem_of_getElem? found)
      have length := length_toList isWellFormed
      refine .inr ⟨q.toList, fun _ pos => getPmcKeyedInt q pos, ?_, ?_, ?_, ?_⟩
      · rw [Source.iterator, found, length]
        exact if_neg apart
      · rw [Source.elements, List.getElem?_map, found]
        rfl
      · rw [Source.size, found, length]
        rfl
      intro _ pos inside
      dsimp only
      rw [getPmcKeyedInt_eq isWellFormed, getElement, if_neg, if_neg, Int.toNat_natCast,
        List.getD_eq_getElem?_getD, List.getElem?_eq_getElem inside]
      · rfl
      · exact Int.not_lt.mpr (Int.natCast_nonneg pos)
      · exact Int.not_lt.mpr (Int.natCast_nonneg pos)

theorem perform_agrees {q : Qrpa α} (isWellFormed : q.WellFormed)
    {request : Request α} (sound : request.Sound arrays own q) :
    Agrees (performOnList (arrays.map Qrpa.toList) q.toList request)
      (perform arrays own q request) := by
  cases request with
  | push value => exact push_agrees isWellFormed value
  | pop => exact pop_agrees _ isWellFormed
  | shift => exact shift_agrees _ isWellFormed
  | unshift value => exact unshift_agrees isWellFormed value
  | set pos value => exact setElement_agrees isWellFormed pos value sound
  | resize n => exact resizeElements_agrees isWellFormed n sound
  | splice source offset count =>
    obtain ⟨other, splices⟩ := sound
    rcases source.iterator_agrees wellFormed other with
      ⟨failure, failed, failedOnList⟩ | ⟨elements, shiftIter, ran, ranOnList, size, iterates⟩
    · rw [performOnList, perform, failed, failedOnList]
      exact rfl
    rw [performOnList, perform, ran, ranOnList]
    rw [size] at splices
    exact splice_agrees iterates isWellFormed splices
  | get pos =>
    rw [performOnList, perform, getPmcKeyedInt_eq isWellFormed]
    cases getElement q.toList pos with
    | error failure => exact rfl
    | ok value => exact ⟨isWellFormed, rfl⟩
  | elements => exact ⟨isWellFormed, by rw [performOnList, length_toList isWellFormed]⟩

theorem step_agrees {operation : Operation α} (sound : operation.Sound arrays) :
    WellFormedStore (step arrays operation).2 ∧ stepOnLists (arrays.map Qrpa.toList) operation =
        ((step arrays operation).1, (step arrays operation).2.map Qrpa.toList) := by
  have added : ∀ {q : Qrpa α}, q.WellFormed → WellFormedStore (arrays ++ [q]) :=
    fun isWellFormed =>
      List.forall_mem_append.mpr ⟨wellFormed, List.forall_mem_singleton.mpr isWellFormed⟩
  cases operation with
  | new =>
    refine ⟨added (le_refl 0), ?_⟩
    rw [stepOnLists, step, List.map_append, List.length_map]
    rfl
  | clone i =>
    rw [stepOnLists, step, List.getElem?_map]
    cases found : arrays[i]? with
    | none => exact ⟨wellFormed, rfl⟩
    | some q =>
      obtain ⟨isWellFormed, toList⟩ := clone_toList q (wellFormed q (List.mem_of_getElem? found))
      refine ⟨added isWellFormed, ?_⟩
      rw [List.map_append, List.length_map, List.map_singleton, toList]
      rfl
  | request i asked =>
    rw [stepOnLists, step, List.getElem?_map]
    cases found : arrays[i]? with
    | none => exact ⟨wellFormed, rfl⟩
    | some q =>
      have agrees := perform_agrees wellFormed (wellFormed q (List.mem_of_getElem? found))
        (sound q found)
      dsimp only [Option.map_some]
      cases ran : perform arrays i q asked with
      | error failure =>
        rw [ran] at agrees
        have failed : performOnList _ q.toList asked = .error failure := agrees
        rw [failed]
        exact ⟨wellFormed, rfl⟩
      | ok outcome =>
        rw [ran] at agrees
        obtain ⟨isWellFormed, replied⟩ := agrees
        rw [replied]
        refine ⟨?_, by rw [List.map_set]⟩
        intro other mem
        rcases List.mem_or_eq_of_mem_set mem with old | rfl
        · exact wellFormed other old
        · exact isWellFormed

/-- Operations on the arrays return and leave what those on the lists do. -/
theorem run_agrees {operations : List (Operation α)} (sound : RunSound arrays operations) :
    runOnLists (arrays.map Qrpa.toList) operations =
      ((run arrays operations).1, (run arrays operations).2.map Qrpa.toList) := by
  induction operations generalizing arrays with
  | nil => rfl
  | cons operation operations ih =>
    obtain ⟨first, rest⟩ := sound
    obtain ⟨nextWellFormed, stepped⟩ := step_agrees wellFormed first
    rw [runOnLists, stepped]
    dsimp only
    rw [ih nextWellFormed rest]
    rfl

end

/-- The arrays of a run that begins with none of them are lists. -/
theorem arrays_are_lists {operations : List (Operation α)} (sound : RunSound [] operations) :
    runOnLists [] operations = ((run [] operations).1, (run [] operations).2.map Qrpa.toList) :=
  run_agrees (fun _ impossible => absurd impossible List.not_mem_nil) sound

/-- An array that is extended over a slot that held no element yet. -/
theorem arrays_are_lists_extended :
    runOnLists [] [.new, .request 0 (.push (some 7)), .request 0 (.resize 2)] =
      ([.ok (.array 0), .ok .done, .ok .done], [[some 7, none]]) := by
  have sound : RunSound [] [.new, .request 0 (.push (some 7)), .request 0 (.resize 2)] := by
    refine ⟨trivial, ?_, ?_, trivial⟩
    · intro q _
      exact trivial
    intro q found _ i atLeast below
    cases found
    obtain rfl : i = 1 := le_antisymm (Nat.le_of_lt_succ below) atLeast
    rfl
  exact arrays_are_lists sound

/-- A popped element is seen again when the array grows. -/
theorem popped_element_visible :
    ¬ runOnLists [] [.new, .request 0 (.push (some 7)), .request 0 .pop, .request 0 (.resize 1)] =
      ((run [] [.new, .request 0 (.push (some 7)), .request 0 .pop, .request 0 (.resize 1)]).1,
        (run [] [.new, .request 0 (.push (some 7)), .request 0 .pop,
          .request 0 (.resize 1)]).2.map Qrpa.toList) := by
  intro same
  have seen : (run [] [.new, .request 0 (.push (some 7)), .request 0 .pop,
      .request 0 (.resize 1)]).2.map Qrpa.toList = [[some 7]] := rfl
  rw [seen] at same
  cases same

end RakudoStar.Arrays
