import RakudoStar.Arrays.ResizableElements

/-!
# Splicing into a resizable array

The elements behind the replaced ones are moved, the array is resized and the source copied
element by element. If that is the array itself, what is read must survive what was written.
-/

namespace RakudoStar.Arrays.Resizable

open Foundation RakudoStar.Except List Int

variable {α : Type} {q : Rpa α}

variable {shiftPmc : Rpa α → Nat → Except Failure (Option α)} {source : List (Option α)}

section

variable {offset : Nat} {keeps : Rpa α → Prop}
  (iterates : ∀ (r : Rpa α) {i : Nat} (_ : i < source.length),
    r.WellFormed → keeps r → shiftPmc r i = .ok source[i])
  (stores : ∀ (r result : Rpa α) {i : Nat} (_ : i < source.length),
    r.WellFormed → keeps r →
    Stored r (r.toList.set (offset + i) source[i]) result → keeps result)

include iterates stores

theorem copyElements_ok (left : Nat) (wellFormed : q.WellFormed)
    (kept : keeps q) (whole : i + left = source.length)
    (room : offset + source.length ≤ q.toList.length) :
    ∃ result, copyElements shiftPmc offset left i q = .ok result ∧
      Stored q (q.toList.take (offset + i) ++ source.drop i ++
        q.toList.drop (offset + source.length)) result := by
  have length := length_toList_cast wellFormed
  induction left generalizing i q with
  | zero =>
    refine ⟨q, rfl, wellFormed, rfl, ?_⟩
    have none : source.drop i = [] := drop_of_length_le (by omega)
    rw [none, append_nil, ← whole, add_zero, take_append_drop]
  | succ left ih =>
    have inside : i < source.length := by omega
    obtain ⟨stored, ran, isStored⟩ := @storeAt_ok α q (offset + i) wellFormed (by omega) source[i]
    have storedLength : stored.toList.length = q.toList.length := by
      rw [isStored.toList, length_set]
    obtain ⟨result, copied, isCopied⟩ := ih isStored.wellFormed
      (stores q stored inside wellFormed kept isStored) (by omega : i + 1 + left = source.length)
      (by omega) (length_toList_cast isStored.wellFormed)
    refine ⟨result, ?_, isCopied.wellFormed, isCopied.size.trans isStored.size, ?_⟩
    · rw [copyElements, iterates q inside wellFormed kept]
      change (storeAt q ((offset + i : Nat) : Int) source[i] >>= _) = _
      rw [ran]
      exact copied
    have front : (q.toList.set (offset + i) source[i]).take (offset + (i + 1)) =
        q.toList.take (offset + i) ++ [source[i]] := by
      have last := @set_last α (q.toList.take (offset + i + 1)) (q.toList.take (offset + i))
        (offset + i) (length_take_of_le (by omega))
        (by rw [take_take, min_eq_left (Nat.le_succ _)]) source[i]
      rw [← last, ← take_set]
      rfl
    have back : (q.toList.set (offset + i) source[i]).drop (offset + source.length) =
        q.toList.drop (offset + source.length) := drop_set_of_lt (by omega)
    rw [isCopied.toList, isStored.toList, front, back, drop_eq_getElem_cons inside]
    simp only [append_assoc, cons_append, nil_append]

end

/-- What the moves and the resizing of a splice leave. -/
structure Room (q : Rpa α) (offset count m : Nat) (result : Rpa α) : Prop where
  wellFormed : result.WellFormed
  size : result.size = offset + m + (q.toList.length - (offset + count) : Nat)
  front : result.toList.take offset = (padTo offset q.toList).take offset
  back : result.toList.drop (offset + m) = q.toList.drop (offset + count)
  old : q.toList.length ≤ offset + m → result.toList.take q.toList.length = q.toList

theorem moveTail_none (moves : Bool) (target source : Int) :
    moveTail q moves target source 0 = .ok q :=
  if_neg fun both => absurd both.1 (by decide)

theorem moveTail_false (target source tail : Int) : moveTail q false target source tail = .ok q :=
  if_neg fun both => absurd both.2 (by decide)

theorem moveTail_true (target source : Int) {tail : Nat} (some : 0 < tail) :
    moveTail q true target source tail = moveSlots q target source tail :=
  if_pos ⟨natCast_pos.mpr some, rfl⟩

theorem drop_overwrite {memory cells : List α} {position : Nat}
    (room : position + cells.length = memory.length) :
    (overwrite memory position cells).drop position = cells := by
  have place : (memory.take position).length = position := length_take_of_le (by omega)
  rw [overwrite, room, drop_length, append_nil, List.drop_append, place, Nat.sub_self,
    drop_of_length_le (le_of_eq place)]
  rfl

theorem makeRoom_ok (wellFormed : q.WellFormed) (offset count m : Nat)
    (exposes : q.ExposesNull offset) :
    ∃ result, makeRoom q (m < count) (count < m) (offset + m : Nat) (offset + count : Nat)
        (offset + m + (q.toList.length - (offset + count)) : Nat)
        (q.toList.length - (offset + count) : Nat) = .ok result ∧ Room q offset count m result := by
  have length := length_toList_cast wellFormed
  generalize tailEq : q.toList.length - (offset + count) = tail
  rw [makeRoom]
  rcases Nat.eq_zero_or_pos tail with none | some
  · subst none
    obtain ⟨result, ran, resized⟩ := setIntegerNative_ok wellFormed (offset + m)
    refine ⟨result, ?_, resized.wellFormed, ?_, ?_, ?_, ?_⟩
    · change (moveTail q _ _ _ 0 >>= _) = _
      rw [moveTail_none, ok_bind, add_zero, ran, ok_bind]
      exact moveTail_none _ _ _
    · rw [resized.size, tailEq]
      rfl
    · exact resized.take_toList wellFormed exposes (Nat.le_add_right _ _)
    · rw [drop_of_length_le (le_of_eq resized.length), drop_of_length_le (by omega)]
    · intro le
      rw [length_toList wellFormed]
      exact resized.take_old wellFormed (by omega)
  have rest : (q.toList.drop (offset + count)).length = tail := by
    rw [length_drop, tailEq]
  have region : readRegion q.toList (offset + count) tail = q.toList.drop (offset + count) :=
    take_of_length_le (le_of_eq rest)
  have padded : (padTo offset q.toList).take offset = q.toList.take offset :=
    take_padTo_of_le (by omega)
  rcases lt_or_ge m count with shrinks | grows
  · obtain ⟨moved, ran, stored⟩ := @moveSlots_ok α q wellFormed (offset + m) (offset + count) tail
      (by omega) (by omega)
    obtain ⟨result, ran', resized⟩ := setIntegerNative_ok stored.wellFormed (offset + m + tail)
    rw [region] at stored
    have written := @take_overwrite _ q.toList (q.toList.drop (offset + count)) (offset + m)
      (by omega)
    have movedLength := length_toList stored.wellFormed
    have cells : result.toList =
        q.toList.take (offset + m) ++ q.toList.drop (offset + count) := by
      have shown := resized.take_toList stored.wellFormed
        (exposesNull_of_le (by rw [stored.size]; omega)) le_rfl
      rw [take_of_length_le (le_of_eq resized.length), take_padTo_of_le (by
        rw [movedLength, stored.size]; omega), stored.toList] at shown
      rw [shown, ← written, rest]
    have front : (q.toList.take (offset + m)).length = offset + m := length_take_of_le (by omega)
    refine ⟨result, ?_, resized.wellFormed, ?_, ?_, ?_, ?_⟩
    · rw [decide_eq_true shrinks, decide_eq_false (lt_asymm shrinks), moveTail_true _ _ some,
        ran, ok_bind, ran', ok_bind, moveTail_false]
    · rw [resized.size, tailEq]
      rfl
    · rw [padded, cells, take_append_of_le_length (by omega), take_take,
        min_eq_left (Nat.le_add_right _ _)]
    · rw [cells]
      exact drop_left' front
    · intro le
      omega
  · obtain ⟨grown, ran, resized⟩ := setIntegerNative_ok wellFormed (offset + m + tail)
    have old := resized.take_old wellFormed (by omega)
    rw [← length_toList wellFormed] at old
    have grownLength := resized.length
    rcases lt_or_eq_of_le grows with more | same
    · obtain ⟨moved, ran', stored⟩ := @moveSlots_ok α grown resized.wellFormed (offset + m)
        (offset + count) tail (by omega) (by omega)
      have region' : readRegion grown.toList (offset + count) tail =
          q.toList.drop (offset + count) := by
        rw [← region]
        conv_rhs => rw [← old]
        have inside := @readRegion_readRegion _ grown.toList 0 q.toList.length
          (offset + count) tail (by omega)
        rw [zero_add] at inside
        rw [← inside]
        rfl
      rw [region'] at stored
      refine ⟨moved, ?_, stored.wellFormed, ?_, ?_, ?_, ?_⟩
      · rw [decide_eq_true more, decide_eq_false (lt_asymm more), moveTail_false, ok_bind,
          ran, ok_bind, moveTail_true _ _ some, ran']
      · rw [stored.size, resized.size, tailEq]
        rfl
      · rw [padded, stored.toList, overwrite_take _ (by omega) (Nat.le_add_right _ _)]
        conv_rhs => rw [← old, take_take, min_eq_left (by omega)]
      · rw [stored.toList]
        exact drop_overwrite (by omega)
      · intro le
        rw [stored.toList, overwrite_take _ (by omega) le]
        exact old
    · subst same
      have all : grown.toList = q.toList := by
        rw [← old, take_of_length_le (by omega)]
      refine ⟨grown, ?_, resized.wellFormed, ?_, ?_, ?_, ?_⟩
      · rw [decide_eq_false (lt_irrefl count), moveTail_false, ok_bind, ran, ok_bind,
          moveTail_false]
      · rw [resized.size, tailEq]
        rfl
      · rw [padded, all]
      · rw [all]
      · intro _
        exact old

section

variable {place count : Int}

theorem splice_ok (wellFormed : q.WellFormed) {offset count : Nat} (exposes : q.ExposesNull offset)
    {keeps : Rpa α → Prop}
    (iterates : ∀ (r : Rpa α) {i : Nat} (_ : i < source.length), r.WellFormed → keeps r →
      shiftPmc r i = .ok source[i])
    (stores : ∀ (r result : Rpa α) {i : Nat} (_ : i < source.length), r.WellFormed → keeps r →
      Stored r (r.toList.set (offset + i) source[i]) result → keeps result)
    (begins : ∀ r, Room q offset count source.length r → keeps r) {place : Int}
    (normal : (if place < 0 then place + q.size else place) = offset) :
    ∃ result, splice q source.length shiftPmc place count = .ok result ∧ result.WellFormed ∧
      result.toList = (padTo offset q.toList).take offset ++ source ++
        q.toList.drop (offset + count) := by
  have length := length_toList_cast wellFormed
  obtain ⟨made, ran, room⟩ := makeRoom_ok wellFormed offset count source.length exposes
  have madeLength := length_toList_cast room.wellFormed
  have madeSize := room.size
  obtain ⟨result, copied, stored⟩ := copyElements_ok iterates stores source.length room.wellFormed
    (begins made room) (zero_add _) (by omega)
  refine ⟨result, ?_, stored.wellFormed, ?_⟩
  · have tail : max (q.size - offset - count) 0 =
        ((q.toList.length - (offset + count) : Nat) : Int) := by omega
    have shrinks : decide ((source.length : Int) < count) = decide (source.length < count) :=
      decide_eq_decide.mpr ofNat_lt
    have grows : decide ((count : Int) < source.length) = decide (count < source.length) :=
      decide_eq_decide.mpr ofNat_lt
    rw [splice, normal, if_neg (Int.not_lt.mpr (natCast_nonneg offset)), tail, shrinks, grows]
    change (makeRoom q _ _ ((offset + source.length : Nat) : Int) ((offset + count : Nat) : Int)
      ((offset + source.length + (q.toList.length - (offset + count)) : Nat) : Int) _ >>= _) = _
    rw [ran]
    exact copied
  · rw [stored.toList, add_zero, drop_zero, room.front, room.back]

theorem splice_list_agrees (wellFormed : q.WellFormed)
    (iterates : ∀ (r : Rpa α) {i : Nat} (_ : i < source.length), shiftPmc r i = .ok source[i])
    (sound : 0 ≤ (if place < 0 then place + q.size else place) → 0 ≤ count ∧
      q.ExposesNull (if place < 0 then place + q.size else place).toNat) :
    Agrees (spliceElements q.toList source place count >>= fun elements => .ok (.done, elements))
      (splice q source.length shiftPmc place count >>= fun q => .ok (.done, q)) := by
  have length := length_toList_cast wellFormed
  rw [spliceElements, length]
  by_cases negative : (if place < 0 then place + q.size else place) < 0
  · rw [splice, if_pos negative, if_pos negative]
    rfl
  obtain ⟨offset, normal⟩ := eq_ofNat_of_zero_le (Int.not_lt.mp negative)
  obtain ⟨counted, exposes⟩ := sound (Int.not_lt.mp negative)
  obtain ⟨count, rfl⟩ := eq_ofNat_of_zero_le counted
  rw [normal] at exposes negative ⊢
  rw [toNat_natCast] at exposes ⊢
  obtain ⟨result, ran, isWellFormed, cells⟩ := @splice_ok α q shiftPmc source wellFormed offset
    count exposes (fun _ => True) (fun r _ inside _ _ => iterates r inside)
    (fun _ _ _ _ _ _ _ => trivial) (fun _ _ => trivial) place normal
  rw [if_neg negative, ran, toNat_natCast]
  exact ⟨isWellFormed, by rw [cells]; rfl⟩

/-- The elements of an array repeat themselves from an offset on, as far as there are any. -/
def Repeats (elements : List (Option α)) (offset : Nat) : Prop :=
  ∀ i, offset + i < elements.length → elements[offset + i]? = elements[i]?

theorem splice_self_agrees (wellFormed : q.WellFormed)
    (sound : 0 ≤ (if place < 0 then place + q.size else place) → 0 ≤ count ∧
      q.ExposesNull (if place < 0 then place + q.size else place).toNat ∧
      Repeats q.toList (if place < 0 then place + q.size else place).toNat) :
    Agrees (spliceElements q.toList q.toList place count >>= fun elements =>
        .ok (.done, elements))
      (splice q q.size (fun r pos => getPmcKeyedInt r pos) place count >>= fun q =>
        .ok (.done, q)) := by
  have length := length_toList_cast wellFormed
  rw [spliceElements, length]
  by_cases negative : (if place < 0 then place + q.size else place) < 0
  · rw [splice, if_pos negative, if_pos negative]
    rfl
  obtain ⟨offset, normal⟩ := eq_ofNat_of_zero_le (Int.not_lt.mp negative)
  obtain ⟨counted, exposes, repeats⟩ := sound (Int.not_lt.mp negative)
  obtain ⟨count, rfl⟩ := eq_ofNat_of_zero_le counted
  rw [normal] at exposes repeats negative ⊢
  rw [toNat_natCast] at exposes repeats ⊢
  have iterates : ∀ (r : Rpa α) {i : Nat} (inside : i < q.toList.length), r.WellFormed →
      r.toList.take q.toList.length = q.toList → getPmcKeyedInt r i = .ok q.toList[i] := by
    intro r i inside isWellFormed keeps
    have get : r.toList[i]? = some q.toList[i] := by
      have taken : (r.toList.take q.toList.length)[i]? = q.toList[i]? := by rw [keeps]
      rw [getElem?_take, if_pos inside] at taken
      rw [taken]
      exact getElem?_eq_getElem inside
    rw [getPmcKeyedInt_eq isWellFormed, getElement, if_neg (by omega), if_neg (by omega),
      toNat_natCast, getD_eq_getElem?_getD, get]
    rfl
  have stores : ∀ (r result : Rpa α) {i : Nat} (inside : i < q.toList.length), r.WellFormed →
      r.toList.take q.toList.length = q.toList →
      Stored r (r.toList.set (offset + i) q.toList[i]) result →
      result.toList.take q.toList.length = q.toList := by
    intro r result i inside _ keeps stored
    rw [stored.toList, take_set, keeps]
    by_cases within : offset + i < q.toList.length
    · have same := repeats i within
      rw [getElem?_eq_getElem within, getElem?_eq_getElem inside] at same
      rw [← Option.some.inj same]
      exact set_getElem_self within
    · exact set_eq_of_length_le (not_lt.mp within)
  obtain ⟨result, ran, isWellFormed, cells⟩ := @splice_ok α q
    (fun r pos => getPmcKeyedInt r pos) q.toList wellFormed offset count exposes
    (fun r => r.toList.take q.toList.length = q.toList) iterates stores
    (fun r room => room.old (Nat.le_add_left _ _)) place normal
  rw [length] at ran
  rw [if_neg negative, ran, toNat_natCast]
  exact ⟨isWellFormed, by rw [cells]; rfl⟩

end

end RakudoStar.Arrays.Resizable
