import RakudoStar.Arrays.Resizable
import RakudoStar.Arrays.Resizing

/-!
# The slots of a resizable array

The elements are the slots up to the size, as long as the size is not above the threshold, nor
that above the number of slots.
-/

namespace RakudoStar.Arrays.Resizable

open Foundation RakudoStar.Except List Int

variable {α : Type}

/-- The elements. -/
def Rpa.toList (q : Rpa α) : List (Option α) := readRegion q.slots 0 q.size.toNat

/-- The size is not above the threshold, which is not above the number of slots. -/
structure Rpa.WellFormed (q : Rpa α) : Prop where
  nonneg : 0 ≤ q.size
  size_le : q.size ≤ q.threshold
  threshold_le : q.threshold ≤ q.slots.length

/-- The elements and the slots behind them, up to the threshold. -/
def Rpa.reserve (q : Rpa α) : List (Option α) := q.slots.take q.threshold

variable {q : Rpa α} {elements : List (Option α)} {result : Rpa α} {n last i : Nat}

section

variable (wellFormed : q.WellFormed)

include wellFormed

theorem Rpa.WellFormed.size_eq : (q.size.toNat : Int) = q.size :=
  toNat_of_nonneg wellFormed.nonneg

theorem Rpa.WellFormed.room : q.size.toNat ≤ q.slots.length := by
  have size := wellFormed.size_le
  have threshold := wellFormed.threshold_le
  omega

theorem length_toList : q.toList.length = q.size.toNat :=
  length_readRegion ((Nat.zero_add _).symm ▸ wellFormed.room)

theorem length_toList_cast : (q.toList.length : Int) = q.size := by
  rw [length_toList wellFormed, wellFormed.size_eq]

end

theorem toList_eq_take (q : Rpa α) : q.toList = q.slots.take q.size.toNat := by
  rw [Rpa.toList, readRegion, drop_zero]

theorem loadAt_ok (wellFormed : q.WellFormed) (inside : i < q.toList.length) :
    loadAt q i = .ok q.toList[i] := by
  have below : i < q.slots.length :=
    lt_of_lt_of_le (length_toList wellFormed ▸ inside) wellFormed.room
  rw [loadAt, if_neg (by omega), toNat_natCast, load_ok below]
  simp only [toList_eq_take, getElem_take]

structure Changed (q : Rpa α) (slots : List (Option α)) (result : Rpa α) : Prop where
  size : result.size = q.size
  threshold : result.threshold = q.threshold
  slots : result.slots = slots

/-- The elements have changed, but not their number. -/
structure Stored (q : Rpa α) (elements : List (Option α)) (result : Rpa α) : Prop where
  wellFormed : result.WellFormed
  size : result.size = q.size
  toList : result.toList = elements

theorem Changed.wellFormed {slots : List (Option α)}
    (changed : Changed q slots result) (wellFormed : q.WellFormed)
    (length : slots.length = q.slots.length) : result.WellFormed := by
  refine ⟨?_, ?_, ?_⟩
  · rw [changed.size]
    exact wellFormed.nonneg
  · rw [changed.size, changed.threshold]
    exact wellFormed.size_le
  · rw [changed.threshold, changed.slots, length]
    exact wellFormed.threshold_le

theorem storeAt_changed (inside : i < q.slots.length) (value : Option α) :
    ∃ result, storeAt q i value = .ok result ∧ Changed q (q.slots.set i value) result := by
  refine ⟨{ q with pmcArray := some (q.slots.set i value) }, ?_, rfl, rfl, rfl⟩
  rw [storeAt, if_neg (by omega), toNat_natCast, store_ok inside]
  rfl

theorem storeAt_ok (wellFormed : q.WellFormed) (inside : i < q.size) (value : Option α) :
    ∃ result, storeAt q i value = .ok result ∧ Stored q (q.toList.set i value) result := by
  have room := wellFormed.room
  obtain ⟨result, ran, changed⟩ := @storeAt_changed α q i (by omega) value
  refine ⟨result, ran, changed.wellFormed wellFormed length_set, changed.size, ?_⟩
  rw [toList_eq_take, toList_eq_take, changed.slots, changed.size]
  exact take_set

theorem moveSlots_changed {target source count : Nat}
    (targetRoom : target + count ≤ q.slots.length) (sourceRoom : source + count ≤ q.slots.length) :
    ∃ result, moveSlots q target source count = .ok result ∧
      Changed q (overwrite q.slots target (readRegion q.slots source count)) result := by
  by_cases none : count = 0
  · subst none
    refine ⟨q, if_pos (Int.le_refl 0), rfl, rfl, ?_⟩
    simp [readRegion, overwrite]
  refine ⟨⟨q.size, q.threshold,
    some (overwrite q.slots target (readRegion q.slots source count))⟩, ?_, rfl, rfl, rfl⟩
  rw [moveSlots, if_neg (by omega), toNat_natCast, memmove_ok targetRoom sourceRoom]
  rfl

theorem moveSlots_ok (wellFormed : q.WellFormed) {target source count : Nat}
    (targetRoom : target + count ≤ q.toList.length)
    (sourceRoom : source + count ≤ q.toList.length) :
    ∃ result, moveSlots q target source count = .ok result ∧
      Stored q (overwrite q.toList target (readRegion q.toList source count)) result := by
  have room := wellFormed.room
  rw [length_toList wellFormed] at targetRoom sourceRoom
  obtain ⟨result, ran, changed⟩ := @moveSlots_changed α q target source count (by omega) (by omega)
  have length : (readRegion q.slots source count).length = count := length_readRegion (by omega)
  refine ⟨result, ran, changed.wellFormed wellFormed (overwrite_length (by omega)),
    changed.size, ?_⟩
  have window := @readRegion_overwrite_window (Option α) q.slots
    (readRegion q.slots source count) 0 q.size.toNat target (by omega) (by omega)
  rw [zero_add] at window
  rw [Rpa.toList, Rpa.toList, changed.slots, changed.size, readRegion_readRegion _ sourceRoom,
    zero_add]
  exact window

theorem le_grownThreshold (threshold size : Nat) : size ≤ grownThreshold threshold size := by
  have fits : size ≤ (if threshold < 8192 then if size < 2 * threshold then 2 * threshold else size
      else (size + 4096) / 4096 * 4096) := by
    split
    · split <;> omega
    · omega
  unfold grownThreshold
  generalize (if threshold < 8192 then if size < 2 * threshold then 2 * threshold else size
    else (size + 4096) / 4096 * 4096) = cur at fits ⊢
  by_cases few : cur < 8
  · exact (if_pos few).symm ▸ le_trans fits (le_of_lt few)
  · exact (if_neg few).symm ▸ fits

/-- The elements are those up to the old threshold, filled with null. -/
structure Resized (q : Rpa α) (n : Nat) (result : Rpa α) : Prop where
  wellFormed : result.WellFormed
  size : result.size = n
  toList : result.toList = (padTo n q.reserve).take n

theorem reserve_length (wellFormed : q.WellFormed) : q.reserve.length = q.threshold :=
  length_take_of_le wellFormed.threshold_le

theorem take_reserve (wellFormed : q.WellFormed) {size : Nat} (small : size ≤ q.threshold) :
    (padTo size q.reserve).take size = q.slots.take size := by
  rw [padTo, take_append_of_le_length (by rw [reserve_length wellFormed]; exact small),
    Rpa.reserve, take_take, min_eq_left small]

theorem setIntegerNative_ok (wellFormed : q.WellFormed) (size : Nat) :
    ∃ result, setIntegerNative q size = .ok result ∧ Resized q size result := by
  have threshold := wellFormed.threshold_le
  have sizeLe := wellFormed.size_le
  have nonneg := wellFormed.nonneg
  obtain ⟨own, reach, block⟩ := q
  rw [setIntegerNative, if_neg (by omega)]
  cases block with
  | none =>
    obtain rfl : reach = 0 := Nat.le_zero.mp threshold
    obtain rfl : own = 0 := by
      dsimp only at nonneg sizeLe
      omega
    have nulls : (padTo size (Rpa.reserve ⟨0, 0, (none : Option (List (Option α)))⟩)).take size =
        replicate size none := by
      simp [padTo, Rpa.reserve, Rpa.slots]
    by_cases small : (size : Int) < 8
    · refine ⟨⟨size, 8, some (replicate 8 none)⟩, ?_, ?_⟩
      · rw [if_pos small]
        rfl
      refine ⟨⟨natCast_nonneg _, Int.le_of_lt small, Nat.le_refl 8⟩, rfl, ?_⟩
      rw [nulls, toList_eq_take]
      change (replicate 8 none).take size = _
      rw [take_replicate, min_eq_left (by omega)]
    refine ⟨⟨size, size, some (replicate size none)⟩, ?_, ?_⟩
    · rw [if_neg small, setFixed, if_neg (fun both => both.1 rfl), if_neg (by omega)]
      rfl
    refine ⟨⟨natCast_nonneg _, Int.le_refl _, ?_⟩, rfl, ?_⟩
    · exact Nat.le_of_eq length_replicate.symm
    · rw [nulls, toList_eq_take]
      exact take_of_length_le (le_of_eq length_replicate)
  | some slots =>
    dsimp only
    have wellFormed' : Rpa.WellFormed ⟨own, reach, some slots⟩ := wellFormed
    by_cases same : (size : Int) = own
    · subst same
      refine ⟨_, if_pos rfl, wellFormed', rfl, ?_⟩
      rw [take_reserve wellFormed' (by dsimp only at sizeLe ⊢; omega), toList_eq_take]
      rfl
    rw [if_neg same]
    by_cases small : (size : Int) ≤ reach
    · refine ⟨⟨size, reach, some slots⟩, if_pos small, ⟨?_, small, threshold⟩, rfl, ?_⟩
      · exact natCast_nonneg _
      · rw [take_reserve wellFormed' (ofNat_le.mp small), toList_eq_take]
        rfl
    rw [if_neg small, toNat_natCast]
    have above := le_grownThreshold reach size
    generalize grownThreshold reach size = cur at above ⊢
    have length : (slots.take reach).length = reach := length_take_of_le threshold
    refine ⟨_, rfl, ⟨natCast_nonneg _, ofNat_le.mpr above, ?_⟩, rfl, ?_⟩
    · change cur ≤ (reallocated slots reach cur).length
      rw [reallocated, length_append, length_replicate]
      omega
    rw [toList_eq_take]
    change (reallocated slots reach cur).take size = (padTo size (slots.take reach)).take size
    rw [reallocated, padTo, take_append, take_append, take_replicate, take_replicate, length]
    congr 2
    omega

/-- The slots between the elements and an index the threshold has reached are null. -/
def Rpa.ExposesNull (q : Rpa α) (last : Nat) : Prop :=
  ∀ i : Nat, q.size ≤ i → i < last → q.reserve.getD i none = none

theorem take_padTo_getElem? (below : i < n) :
    ((padTo n elements).take n)[i]? = some (elements.getD i none) := by
  rw [getElem?_take, if_pos below, padTo, getD_eq_getElem?_getD]
  by_cases inside : i < elements.length
  · rw [getElem?_append_left inside, getElem?_eq_getElem inside]
    rfl
  have behind := not_lt.mp inside
  rw [getElem?_append_right behind, getElem?_eq_none behind, getElem?_replicate, if_pos (by omega)]
  rfl

theorem length_take_padTo (elements : List (Option α)) (n : Nat) :
    ((padTo n elements).take n).length = n := by
  rw [length_take, padTo, length_append, length_replicate]
  omega

theorem take_padTo_congr {one two : List (Option α)}
    (same : ∀ i, i < n → one.getD i none = two.getD i none) :
    (padTo n one).take n = (padTo n two).take n := by
  apply ext_getElem?
  intro i
  by_cases below : i < n
  · rw [take_padTo_getElem? below, take_padTo_getElem? below, same i below]
  · rw [getElem?_eq_none (by rw [length_take_padTo]; omega),
      getElem?_eq_none (by rw [length_take_padTo]; omega)]

theorem take_take_padTo (le : last ≤ n) :
    ((padTo n elements).take n).take last = (padTo last elements).take last := by
  apply ext_getElem?
  intro i
  by_cases below : i < last
  · rw [getElem?_take, if_pos below, take_padTo_getElem? (lt_of_lt_of_le below le),
      take_padTo_getElem? below]
  · rw [getElem?_take, if_neg below, getElem?_eq_none (by rw [length_take_padTo]; omega)]

theorem take_padTo_of_le (le : n ≤ elements.length) :
    (padTo n elements).take n = elements.take n := by
  rw [padTo, take_append_of_le_length le]

theorem reserve_getD_of_lt (wellFormed : q.WellFormed) (inside : i < q.size) :
    q.reserve.getD i none = q.toList.getD i none := by
  have size := wellFormed.size_le
  rw [getD_eq_getElem?_getD, getD_eq_getElem?_getD, toList_eq_take, Rpa.reserve,
    getElem?_take, getElem?_take, if_pos (by omega), if_pos (by omega)]

theorem toList_getD_of_le (wellFormed : q.WellFormed) (behind : q.size ≤ i) :
    q.toList.getD i none = none := by
  have length := length_toList_cast wellFormed
  rw [getD_eq_getElem?_getD, getElem?_eq_none (by omega)]
  rfl

theorem Resized.take_toList (resized : Resized q n result)
    (wellFormed : q.WellFormed) (exposes : q.ExposesNull last) (le : last ≤ n) :
    result.toList.take last = (padTo last q.toList).take last := by
  rw [resized.toList, take_take_padTo le]
  apply take_padTo_congr
  intro i below
  by_cases inside : (i : Int) < q.size
  · exact reserve_getD_of_lt wellFormed inside
  · rw [exposes i (by omega) below, toList_getD_of_le wellFormed (by omega)]

theorem exposesNull_of_le (le : last ≤ q.size) : q.ExposesNull last :=
  fun i behind below => absurd behind (by omega)

theorem Resized.length (resized : Resized q n result) : result.toList.length = n := by
  rw [length_toList resized.wellFormed, resized.size, toNat_natCast]

theorem Resized.take_old (resized : Resized q n result)
    (wellFormed : q.WellFormed) (le : q.size ≤ n) : result.toList.take q.size.toNat = q.toList := by
  have size := wellFormed.size_eq
  have length := length_toList wellFormed
  rw [resized.take_toList wellFormed (exposesNull_of_le (by omega)) (by omega),
    take_padTo_of_le (by omega), take_of_length_le (by omega)]

end RakudoStar.Arrays.Resizable
