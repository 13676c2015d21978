import RakudoStar.Arrays.ResizableSlots

/-!
# Operations on the elements

Each operation on a resizable array is the one on the list of its elements.
-/

namespace RakudoStar.Arrays.Resizable

open Foundation RakudoStar.Except List Int

variable {α : Type} {q : Rpa α} (lists : List (List (Option α)))

/-- An operation returns what it returns on the list of the elements, and leaves its result. -/
def Agrees (elements : Except Failure (Reply α × List (Option α))) :
    Except Failure (Reply α × Rpa α) → Prop
  | .ok (reply, q) => q.WellFormed ∧ elements = .ok (reply, q.toList)
  | .error failure => elements = .error failure

theorem getPmcKeyedInt_eq (wellFormed : q.WellFormed) (key : Int) :
    getPmcKeyedInt q key = getElement q.toList key := by
  have length := length_toList_cast wellFormed
  rw [getPmcKeyedInt, getElement, length]
  generalize (if key < 0 then key + q.size else key) = place
  by_cases negative : place < 0
  · rw [if_pos negative, if_pos negative]
  rw [if_neg negative, if_neg negative]
  obtain ⟨i, rfl⟩ := eq_ofNat_of_zero_le (Int.not_lt.mp negative)
  rw [toNat_natCast]
  by_cases behind : q.size ≤ i
  · rw [if_pos behind, toList_getD_of_le wellFormed behind]
  have inside : i < q.toList.length := by omega
  rw [if_neg behind, loadAt_ok wellFormed inside, getD_eq_getElem?_getD, getElem?_eq_getElem inside]
  rfl

theorem set_last {elements front : List (Option α)} {n : Nat} (length : elements.length = n + 1)
    (first : elements.take n = front) (value : Option α) :
    elements.set n value = front ++ [value] := by
  subst first
  have split : elements = elements.take n ++ [elements[n]] := by
    conv_lhs => rw [← take_append_drop n elements]
    rw [drop_eq_getElem_cons (by omega), drop_of_length_le (by omega)]
  have place : (elements.take n).length = n := length_take_of_le (by omega)
  conv_lhs => rw [split]
  rw [set_append_right n value (le_of_eq place), place, Nat.sub_self]
  rfl

section
variable (wellFormed : q.WellFormed)
include wellFormed

theorem pushRoom_ok : ∃ grown, pushRoom q = .ok grown ∧ Resized q (q.size.toNat + 1) grown := by
  have size := wellFormed.size_eq
  have cast : ((q.size.toNat + 1 : Nat) : Int) = q.size + 1 := by omega
  by_cases room : q.pmcArray.isSome ∧ q.size < q.threshold
  · refine ⟨_, if_pos room, ⟨?_, room.2, wellFormed.threshold_le⟩, cast.symm, ?_⟩
    · exact le_add_one wellFormed.nonneg
    rw [take_reserve wellFormed (by omega), toList_eq_take]
    have same : (q.size + 1).toNat = q.size.toNat + 1 := by omega
    exact congrArg (fun n => q.slots.take n) same
  · obtain ⟨grown, ran, resized⟩ := setIntegerNative_ok wellFormed (q.size.toNat + 1)
    rw [cast] at ran
    exact ⟨grown, (if_neg room).trans ran, resized⟩

theorem push_agrees (value : Option α) :
    Agrees (.ok (.done, q.toList ++ [value])) (pushPmc q value >>= fun q => .ok (.done, q)) := by
  have size := wellFormed.size_eq
  obtain ⟨grown, ran, resized⟩ := pushRoom_ok wellFormed
  obtain ⟨result, stored, isStored⟩ :=
    @storeAt_ok α grown q.size.toNat resized.wellFormed (by rw [resized.size]; omega) value
  rw [size] at stored
  rw [pushPmc, ran, ok_bind, stored]
  refine ⟨isStored.wellFormed, ?_⟩
  rw [isStored.toList, set_last resized.length (resized.take_old wellFormed (by omega))]

theorem exists_size (some : q.size ≠ 0) : ∃ n : Nat, q.size = n + 1 ∧ q.toList.length = n + 1 := by
  have length := length_toList_cast wellFormed
  exact ⟨q.size.toNat - 1, by omega, by omega⟩

theorem toList_empty (empty : q.size = 0) : q.toList = [] := by
  apply eq_nil_of_length_eq_zero
  rw [length_toList wellFormed, empty]
  rfl

theorem toList_shrunk {n : Nat} (le : n ≤ q.size) :
    Rpa.WellFormed { q with size := n } ∧ Rpa.toList { q with size := n } = q.toList.take n := by
  refine ⟨⟨natCast_nonneg n, Int.le_trans le wellFormed.size_le, wellFormed.threshold_le⟩, ?_⟩
  rw [toList_eq_take, toList_eq_take, take_take, Nat.min_eq_left (by omega)]
  rfl

end

theorem pop_agrees (wellFormed : q.WellFormed) : Agrees (performOnList lists q.toList .pop)
      (popPmc q >>= fun result => .ok (.value result.1, result.2)) := by
  rw [popPmc]
  by_cases empty : q.size = 0
  · rw [if_pos empty, toList_empty wellFormed empty]
    rfl
  obtain ⟨n, size, length⟩ := exists_size wellFormed empty
  have inside : n < q.toList.length := by omega
  have last : q.size - 1 = n := by omega
  obtain ⟨isWellFormed, toList⟩ := toList_shrunk wellFormed (by omega : (n : Int) ≤ q.size)
  rw [if_neg empty, last, loadAt_ok wellFormed inside]
  refine ⟨isWellFormed, ?_⟩
  have value : q.toList.getLast? = some q.toList[n] := by
    rw [getLast?_eq_getElem?, length]
    exact getElem?_eq_getElem inside
  rw [performOnList, value, dropLast_eq_take, length, toList]
  rfl

theorem shift_agrees (wellFormed : q.WellFormed) : Agrees (performOnList lists q.toList .shift)
      (shiftPmc q >>= fun result => .ok (.value result.1, result.2)) := by
  rw [shiftPmc]
  by_cases empty : q.size = 0
  · rw [if_pos empty, toList_empty wellFormed empty]
    rfl
  obtain ⟨n, size, length⟩ := exists_size wellFormed empty
  have room := wellFormed.room
  have first := @loadAt_ok α q 0 wellFormed (by omega)
  obtain ⟨moved, ran, changed⟩ :=
    @moveSlots_changed α { q with size := n } 0 1 n (by change _ ≤ q.slots.length; omega)
      (by change _ ≤ q.slots.length; omega)
  have slots : moved.slots = overwrite q.slots 0 (readRegion q.slots 1 n) := changed.slots
  have moves : (readRegion q.slots 1 n).length = n := length_readRegion (by omega)
  have same : moved.slots.length = q.slots.length := by
    rw [slots, overwrite_length (by omega)]
  obtain ⟨result, ran', cleared⟩ := @storeAt_changed α moved n (by omega) none
  have resultSize : result.size = n := cleared.size.trans changed.size
  have last : q.size - 1 = n := by omega
  have shifted : doShift q = .ok result := by
    have index : storeAt moved moved.size none = .ok result := by
      rw [changed.size]
      exact ran'
    rw [doShift, last]
    change (moveSlots { q with size := (n : Int) } ((0 : Nat) : Int) ((1 : Nat) : Int) n >>= _) = _
    rw [ran]
    exact index
  obtain ⟨value, others, cons⟩ := exists_cons_of_length_pos (by omega : 0 < q.toList.length)
  have head : loadAt q 0 = .ok value := by
    have get : q.toList[0]? = some value := by rw [cons]; rfl
    rw [getElem?_eq_getElem (by omega)] at get
    rw [← Option.some.inj get]
    exact first
  have rest : result.toList = others := by
    have tail : q.toList.drop 1 = others := by rw [cons]; rfl
    have written := @take_overwrite _ q.slots (readRegion q.slots 1 n) 0 (Nat.zero_le _)
    rw [moves, Nat.zero_add, take_zero, nil_append] at written
    rw [← tail, toList_eq_take, cleared.slots, resultSize, toNat_natCast,
      take_set_of_le le_rfl, slots, written, toList_eq_take, drop_take, readRegion]
    congr 1
    omega
  rw [if_neg empty, head, cons, performOnList, ok_bind, shifted]
  refine ⟨⟨?_, ?_, ?_⟩, by rw [rest]⟩
  · rw [resultSize]
    exact natCast_nonneg n
  · have size := wellFormed.size_le
    rw [resultSize, cleared.threshold, changed.threshold]
    change (n : Int) ≤ q.threshold
    omega
  · rw [cleared.threshold, changed.threshold, cleared.slots, length_set, same]
    exact wellFormed.threshold_le

theorem unshift_agrees (wellFormed : q.WellFormed) (value : Option α) :
    Agrees (.ok (.done, value :: q.toList)) (doUnshift q value >>= fun q => .ok (.done, q)) := by
  have size := wellFormed.size_eq
  obtain ⟨grown, ran, resized⟩ := setIntegerNative_ok wellFormed (q.size.toNat + 1)
  have length := resized.length
  obtain ⟨moved, ran', stored⟩ := @moveSlots_ok α grown resized.wellFormed 1 0 q.size.toNat
    (by omega) (by omega)
  obtain ⟨result, ran'', isStored⟩ := @storeAt_ok α moved 0 stored.wellFormed
    (by rw [stored.size, resized.size]; omega) value
  have cast : ((q.size.toNat + 1 : Nat) : Int) = q.size + 1 := by omega
  rw [cast] at ran
  rw [size] at ran'
  have first : moveSlots grown 1 0 q.size = .ok moved := ran'
  have last : storeAt moved 0 value = .ok result := ran''
  rw [doUnshift, ran, ok_bind, first, ok_bind, last]
  refine ⟨isStored.wellFormed, ?_⟩
  have old := resized.take_old wellFormed (by omega)
  have cells : grown.toList.take 1 ++ q.toList ++ grown.toList.drop (1 + q.toList.length) =
      overwrite grown.toList 1 (readRegion grown.toList 0 q.size.toNat) := by
    rw [readRegion, drop_zero, old]
    rfl
  have none : grown.toList.drop (1 + q.toList.length) = [] :=
    drop_of_length_le (by rw [length_toList wellFormed]; omega)
  obtain ⟨head, rest, split⟩ := exists_cons_of_length_pos (by omega : 0 < grown.toList.length)
  rw [isStored.toList, stored.toList, ← cells, none, split, append_nil]
  rfl

theorem length_padTo (elements : List (Option α)) (n : Nat) :
    (padTo n elements).length = max elements.length n := by
  rw [padTo, length_append, length_replicate]
  omega

theorem setElement_agrees (wellFormed : q.WellFormed) (key : Int) (value : Option α)
    (exposes : q.ExposesNull key.toNat) :
    Agrees (setElement q.toList key value >>= fun elements => .ok (.done, elements))
      (setPmcKeyedInt q key value >>= fun q => .ok (.done, q)) := by
  have length := length_toList_cast wellFormed
  have shown : q.ExposesNull (if key < 0 then key + q.size else key).toNat := by
    split
    · exact exposesNull_of_le (by omega)
    · exact exposes
  rw [setPmcKeyedInt, setElement, length]
  generalize (if key < 0 then key + q.size else key) = place at shown
  by_cases negative : place < 0
  · rw [if_pos negative, if_pos negative]
    rfl
  rw [if_neg negative, if_neg negative]
  obtain ⟨i, rfl⟩ := eq_ofNat_of_zero_le (Int.not_lt.mp negative)
  rw [toNat_natCast] at shown ⊢
  by_cases behind : q.size ≤ i
  · obtain ⟨grown, ran, resized⟩ := setIntegerNative_ok wellFormed (i + 1)
    obtain ⟨result, ran', stored⟩ :=
      @storeAt_ok α grown i resized.wellFormed (by rw [resized.size]; omega) value
    rw [setRoom, if_pos behind]
    change Agrees _ ((setIntegerNative q ((i + 1 : Nat) : Int) >>= _) >>= _)
    rw [ran, ok_bind, ok_bind, ran']
    refine ⟨stored.wellFormed, ?_⟩
    have padded : (padTo (i + 1) q.toList).length = i + 1 := by
      rw [length_padTo]
      omega
    have whole : (padTo (i + 1) q.toList).take i = (padTo i q.toList).take i := by
      have all : (padTo (i + 1) q.toList).take (i + 1) = padTo (i + 1) q.toList :=
        take_of_length_le (le_of_eq padded)
      rw [← take_take_padTo (Nat.le_succ i), all]
    rw [stored.toList, set_last resized.length
      (resized.take_toList wellFormed shown (Nat.le_succ i)), ← set_last padded whole]
  · obtain ⟨result, ran, stored⟩ := @storeAt_ok α q i wellFormed (by omega) value
    rw [setRoom, if_neg behind, ok_bind, ok_bind, ran]
    refine ⟨stored.wellFormed, ?_⟩
    have enough : i + 1 - q.toList.length = 0 := by omega
    rw [stored.toList, padTo, enough, replicate_zero, append_nil]

theorem resizeElements_agrees (wellFormed : q.WellFormed) (n : Int)
    (exposes : q.ExposesNull n.toNat) :
    Agrees (resizeElements q.toList n >>= fun elements => .ok (.done, elements))
      (setIntegerNative q n >>= fun q => .ok (.done, q)) := by
  rw [resizeElements]
  by_cases negative : n < 0
  · rw [if_pos negative, setIntegerNative, if_pos negative]
    rfl
  obtain ⟨size, rfl⟩ := eq_ofNat_of_zero_le (Int.not_lt.mp negative)
  obtain ⟨result, ran, resized⟩ := setIntegerNative_ok wellFormed size
  rw [toNat_natCast] at exposes ⊢
  rw [if_neg negative, ran]
  refine ⟨resized.wellFormed, ?_⟩
  have cells := resized.take_toList wellFormed exposes le_rfl
  rw [take_of_length_le (le_of_eq resized.length)] at cells
  rw [cells]
  rfl

theorem delete_agrees (wellFormed : q.WellFormed) {key : Int} (nonneg : 0 ≤ key)
    (below : key < q.size) :
    Agrees (deleteElement q.toList key >>= fun elements => .ok (.done, elements))
      (deleteKeyedInt q key >>= fun q => .ok (.done, q)) := by
  obtain ⟨i, rfl⟩ := eq_ofNat_of_zero_le nonneg
  obtain ⟨n, size, length⟩ := exists_size wellFormed (by omega : q.size ≠ 0)
  obtain ⟨moved, ran, stored⟩ :=
    @moveSlots_ok α q wellFormed i (i + 1) (n - i) (by omega) (by omega)
  have count : q.size - 1 - (i : Int) = (n - i : Nat) := by omega
  have movedSize : moved.size - 1 = n := by
    rw [stored.size]
    omega
  obtain ⟨isWellFormed, toList⟩ :=
    toList_shrunk stored.wellFormed (by rw [stored.size]; omega : (n : Int) ≤ moved.size)
  have erased : (overwrite q.toList i (readRegion q.toList (i + 1) (n - i))).take n =
      q.toList.eraseIdx i := by
    have moves : (readRegion q.toList (i + 1) (n - i)).length = n - i :=
      length_readRegion (by omega)
    have written := @take_overwrite _ q.toList (readRegion q.toList (i + 1) (n - i)) i (by omega)
    rw [moves, Nat.add_sub_cancel' (by omega : i ≤ n)] at written
    have rest : (q.toList.drop (i + 1)).length ≤ n - i := by
      rw [length_drop]
      omega
    rw [written, eraseIdx_eq_take_drop_succ, readRegion, take_of_length_le rest]
  rw [deleteKeyedInt, count, deleteElement, if_neg (Int.not_lt.mpr nonneg),
    if_neg (Int.not_lt.mpr nonneg), toNat_natCast]
  change Agrees _ ((moveSlots q (i : Int) ((i + 1 : Nat) : Int) ((n - i : Nat) : Int) >>= _) >>= _)
  rw [ran, ok_bind, ok_bind, movedSize]
  refine ⟨isWellFormed, ?_⟩
  rw [toList, stored.toList, erased]

end RakudoStar.Arrays.Resizable
