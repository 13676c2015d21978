import RakudoStar.Foundation.SharedBuffers
import Mathlib.Algebra.Ring.Nat

/-!
# Fields laid out one behind another

A region of a memory is read and written; a field begins where the one before it ends.
-/

namespace RakudoStar.Foundation

open List

variable {α : Type} {offset size i : Nat} {memory : List α} (place : Nat) (sizes : List Nat)

def readRegion (memory : List α) (offset size : Nat) : List α :=
  (memory.drop offset).take size

@[simp]
theorem length_readRegion
    (inside : offset + size ≤ memory.length) : (readRegion memory offset size).length = size := by
  rw [readRegion, length_take, length_drop, min_eq_left]
  exact Nat.le_sub_of_add_le' inside

theorem readRegion_overwrite {memory cells : List α} {offset : Nat}
    (inside : offset + cells.length ≤ memory.length) :
    readRegion (overwrite memory offset cells) offset cells.length = cells := by
  have window := @overwrite_window _ memory cells offset 0 inside
  rw [add_zero, zero_add] at window
  simpa [readRegion] using window

theorem readRegion_overwrite_of_disjoint {cells : List α} {other : Nat}
    (inside : offset + cells.length ≤ memory.length)
    (disjoint : other + size ≤ offset ∨ offset + cells.length ≤ other) :
    readRegion (overwrite memory offset cells) other size = readRegion memory other size := by
  have start : offset ≤ memory.length := Nat.le_of_add_right_le inside
  rcases disjoint with before | behind
  · have same := overwrite_take cells start before
    have window : ∀ cells' : List α, readRegion cells' other size =
        (cells'.take (other + size)).drop other := by
      intro cells'
      rw [readRegion, drop_take, Nat.add_sub_cancel_left]
    rw [window, window, same]
  have written : (memory.take offset ++ cells).length = offset + cells.length := by
    rw [length_append, length_take, min_eq_left start]
  have dropped : (overwrite memory offset cells).drop other = memory.drop other := by
    rw [overwrite, List.drop_append, drop_eq_nil_of_le (written ▸ behind),
      nil_append, drop_drop, written, Nat.add_sub_cancel' behind]
  rw [readRegion, readRegion, dropped]

/-- The offsets of fields of the given sizes, the first at the given place. -/
def fieldOffsets : Nat → List Nat → List Nat
  | _, [] => []
  | place, size :: sizes => place :: fieldOffsets (place + size) sizes

@[simp]
theorem length_fieldOffsets : (fieldOffsets place sizes).length = sizes.length := by
  induction sizes generalizing place with
  | nil => rfl
  | cons size sizes ih => simp [fieldOffsets, ih]

theorem fieldOffsets_append (first second : List Nat) : fieldOffsets place (first ++ second) =
      fieldOffsets place first ++ fieldOffsets (place + first.sum) second := by
  induction first generalizing place with
  | nil => rfl
  | cons size first ih =>
    simp [fieldOffsets, ih, add_assoc]

theorem getElem?_fieldOffsets (below : i < sizes.length) :
    (fieldOffsets place sizes)[i]? = some (place + (sizes.take i).sum) := by
  induction sizes generalizing place i with
  | nil => exact absurd below (Nat.not_lt_zero _)
  | cons size sizes ih =>
    cases i with
    | zero => rfl
    | succ i =>
      rw [fieldOffsets, getElem?_cons_succ,
        ih _ (Nat.lt_of_succ_lt_succ below), take_succ_cons, sum_cons, add_assoc]

theorem sum_take_add_le {sizes : List Nat} {j : Nat} (before : i < j)
    (sized : sizes[i]? = some size) : (sizes.take i).sum + size ≤ (sizes.take j).sum := by
  have next : (sizes.take (i + 1)).sum = (sizes.take i).sum + size := by
    rw [take_add_one, sized]
    simp
  rw [← next]
  have split : sizes.take j = sizes.take (i + 1) ++ (sizes.drop (i + 1)).take (j - (i + 1)) := by
    rw [← take_add]
    congr 1
    omega
  rw [split, sum_append]
  exact Nat.le_add_right _ _

end RakudoStar.Foundation

namespace RakudoStar.Foundation

variable {α : Type} (memory : List α)

theorem overwrite_append (before cells old : List α) :
    overwrite (before ++ old) before.length cells = before ++ cells ++ old.drop cells.length := by
  rw [overwrite, List.take_left, List.drop_length_add_append]

theorem exists_window {memory : List α} {start used : Nat} (room : start + used ≤ memory.length) :
    ∃ before window behind, memory = before ++ window ++ behind ∧ before.length = start ∧
      window.length = used := by
  refine ⟨memory.take start, readRegion memory start used, memory.drop (start + used), ?_, ?_,
    length_readRegion room⟩
  · rw [readRegion, ← List.take_add, List.take_append_drop]
  · exact List.length_take_of_le (Nat.le_of_add_right_le room)

theorem readRegion_middle (before cells behind : List α) :
    readRegion (before ++ cells ++ behind) before.length cells.length = cells := by
  rw [readRegion, List.append_assoc, List.drop_left, List.take_left]

theorem readRegion_readRegion (memory : List α) {start used offset size : Nat}
    (inside : offset + size ≤ used) : readRegion (readRegion memory start used) offset size =
      readRegion memory (start + offset) size := by
  rw [readRegion, readRegion, readRegion, List.drop_take, List.take_take, List.drop_drop,
    min_eq_left (Nat.le_sub_of_add_le' inside)]

theorem readRegion_overwrite_window {memory cells : List α} {start used offset : Nat}
    (room : start + used ≤ memory.length) (inside : offset + cells.length ≤ used) :
    readRegion (overwrite memory (start + offset) cells) start used =
      overwrite (readRegion memory start used) offset cells := by
  obtain ⟨before, window, behind, rfl, rfl, rfl⟩ := exists_window room
  obtain ⟨first, last, rfl, rfl⟩ : ∃ first last, window = first ++ last ∧ first.length = offset :=
    ⟨window.take offset, window.drop offset, (List.take_append_drop _ _).symm,
      List.length_take_of_le (Nat.le_of_add_right_le inside)⟩
  have fits : cells.length ≤ last.length := by
    rw [List.length_append] at inside
    exact Nat.le_of_add_le_add_left inside
  have written : overwrite (before ++ (first ++ last) ++ behind) (before.length + first.length)
      cells = before ++ (first ++ cells ++ last.drop cells.length) ++ behind := by
    have whole := overwrite_append (before ++ first) cells (last ++ behind)
    rw [List.length_append, List.drop_append_of_le_length fits] at whole
    simpa only [List.append_assoc] using whole
  have length : (first ++ cells ++ last.drop cells.length).length = (first ++ last).length := by
    rw [List.length_append, List.length_append, List.length_append, List.length_drop,
      add_assoc, Nat.add_sub_cancel' fits]
  rw [written, ← length, readRegion_middle, length, readRegion_middle, overwrite_append]

theorem take_overwrite {memory : List α} (cells : List α) {position : Nat}
    (inside : position ≤ memory.length) :
    (overwrite memory position cells).take (position + cells.length) =
      memory.take position ++ cells := by
  have length : (memory.take position ++ cells).length = position + cells.length := by
    rw [List.length_append, List.length_take_of_le inside]
  rw [overwrite, ← length, List.take_left]

theorem readRegion_add (start used more : Nat) : readRegion memory start (used + more) =
      readRegion memory start used ++ readRegion memory (start + used) more := by
  rw [readRegion, readRegion, readRegion, List.take_add, List.drop_drop]

theorem take_readRegion (start : Nat) {used size : Nat} (less : size ≤ used) :
    (readRegion memory start used).take size = readRegion memory start size := by
  rw [readRegion, readRegion, List.take_take, min_eq_left less]

theorem drop_readRegion (start used offset : Nat) : (readRegion memory start used).drop offset =
      readRegion memory (start + offset) (used - offset) := by
  rw [readRegion, readRegion, List.drop_take, List.drop_drop]

end RakudoStar.Foundation
