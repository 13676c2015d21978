import RakudoStar.Foundation.Region

/-!
# Memory of bytes as bits

Bits are counted from the least significant one of the first byte.
-/

namespace RakudoStar.Foundation

open List Nat

/-- The bit at a position. It is clear outside the memory. -/
def bitAt (memory : List (BitVec 8)) (pos : Nat) : Bool :=
  (memory.getD (pos / 8) 0).getLsbD (pos % 8)

/-- Setting or clearing one bit. -/
def writeBit (memory : List (BitVec 8)) (pos : Nat) (value : Bool) : List (BitVec 8) :=
  let byte := memory.getD (pos / 8) 0
  let mask := BitVec.twoPow 8 (pos % 8)
  memory.set (pos / 8) (if value then byte ||| mask else byte &&& ~~~mask)

/-- Copying a region over another one, which must both lie in their memories. -/
def copyRegion {α : Type} (destination : List α) (place : Nat) (source : List α)
    (start size : Nat) : Option (List α) :=
  if place + size ≤ destination.length ∧ start + size ≤ source.length then
    some (overwrite destination place (readRegion source start size))
  else none

theorem length_writeBit (memory : List (BitVec 8)) (pos : Nat) (value : Bool) :
    (writeBit memory pos value).length = memory.length :=
  length_set

variable {memory cells : List (BitVec 8)} {position pos : Nat}

theorem bitAt_writeBit (inside : pos < 8 * memory.length)
    (value : Bool) (other : Nat) : bitAt (writeBit memory pos value) other =
      if other = pos then value else bitAt memory other := by
  have byteInside : pos / 8 < memory.length := Nat.div_lt_of_lt_mul inside
  have small : ∀ n, n % 8 < 8 := fun n => mod_lt n (by decide)
  simp only [bitAt, writeBit, getD_eq_getElem?_getD]
  by_cases sameByte : other / 8 = pos / 8
  · rw [sameByte, getElem?_set_self byteInside, Option.getD_some]
    by_cases same : other = pos
    · subst same
      cases value <;> simp [small other]
    · have apart : ¬ other % 8 = pos % 8 := by omega
      cases value <;> simp [small other, same, apart]
  · have apart : other ≠ pos := fun same => sameByte (congrArg (· / 8) same)
    rw [if_neg apart, getElem?_set_ne (Ne.symm sameByte)]

theorem bitAt_replicate (count : Nat) (byte : BitVec 8) (pos : Nat) :
    bitAt (replicate count byte) pos =
      if pos < 8 * count then byte.getLsbD (pos % 8) else false := by
  rw [bitAt, getD_eq_getElem?_getD, getElem?_replicate]
  by_cases inside : pos < 8 * count
  · rw [if_pos (Nat.div_lt_of_lt_mul inside), if_pos inside, Option.getD_some]
  · rw [if_neg (by omega), if_neg inside]
    exact BitVec.getLsbD_zero

theorem bitAt_cleared (count pos : Nat) : bitAt (replicate count 0) pos = false := by
  rw [bitAt_replicate]
  split
  · exact BitVec.getLsbD_zero
  · rfl

theorem bitAt_outside (outside : 8 * memory.length ≤ pos) : bitAt memory pos = false := by
  rw [bitAt, getD_eq_getElem?_getD, getElem?_eq_none (by omega)]
  exact BitVec.getLsbD_zero

theorem getD_overwrite (inside : position + cells.length ≤ memory.length) (i : Nat) :
    (overwrite memory position cells).getD i 0 =
      if position ≤ i ∧ i < position + cells.length then cells.getD (i - position) 0
      else memory.getD i 0 := by
  have taken : (memory.take position).length = position :=
    length_take_of_le (le_of_add_right_le inside)
  have written : (memory.take position ++ cells).length = position + cells.length := by
    rw [length_append, taken]
  simp only [getD_eq_getElem?_getD, overwrite]
  rcases lt_or_ge i position with before | after
  · rw [if_neg (by omega), append_assoc, getElem?_append_left (by omega),
      getElem?_take_of_lt before]
  rcases lt_or_ge i (position + cells.length) with within | behind
  · rw [if_pos ⟨after, within⟩, getElem?_append_left (by omega),
      getElem?_append_right (by omega), taken]
  · rw [if_neg (by omega), getElem?_append_right (by omega), written, getElem?_drop,
      Nat.add_sub_cancel' behind]

theorem bitAt_overwrite (inside : position + cells.length ≤ memory.length) (pos : Nat) :
    bitAt (overwrite memory position cells) pos =
      if 8 * position ≤ pos ∧ pos < 8 * (position + cells.length) then
        bitAt cells (pos - 8 * position) else bitAt memory pos := by
  rw [bitAt, getD_overwrite inside]
  by_cases within : 8 * position ≤ pos ∧ pos < 8 * (position + cells.length)
  · rw [if_pos within, if_pos (by omega), bitAt, sub_mul_div, sub_mul_mod within.1]
  · rw [if_neg within, if_neg (by omega), bitAt]

theorem bitAt_readRegion (start size pos : Nat) : bitAt (readRegion memory start size) pos =
      if pos < 8 * size then bitAt memory (8 * start + pos) else false := by
  rw [bitAt, readRegion, getD_eq_getElem?_getD, getElem?_take]
  by_cases within : pos < 8 * size
  · rw [if_pos (Nat.div_lt_of_lt_mul within), if_pos within, getElem?_drop, bitAt,
      mul_add_div (by decide), mul_add_mod, getD_eq_getElem?_getD]
  · rw [if_neg (by omega), if_neg within]
    exact BitVec.getLsbD_zero

theorem bitAt_copyRegion {destination source copied : List (BitVec 8)} {place start size : Nat}
    (copies : copyRegion destination place source start size = some copied) (pos : Nat) :
    bitAt copied pos = if 8 * place ≤ pos ∧ pos < 8 * (place + size) then
        bitAt source (8 * start + (pos - 8 * place)) else bitAt destination pos := by
  unfold copyRegion at copies
  split at copies
  · next inside =>
      have length := length_readRegion inside.2
      cases copies
      rw [bitAt_overwrite (by rw [length]; exact inside.1), length, bitAt_readRegion]
      by_cases within : 8 * place ≤ pos ∧ pos < 8 * (place + size)
      · rw [if_pos within, if_pos within, if_pos (by omega)]
      · rw [if_neg within, if_neg within]
  · cases copies

theorem copyRegion_eq {α : Type} {destination source : List α} {place start size : Nat}
    (room : place + size ≤ destination.length) (inside : start + size ≤ source.length) :
    ∃ copied, copyRegion destination place source start size = some copied ∧
      copied.length = destination.length := by
  refine ⟨_, if_pos ⟨room, inside⟩, overwrite_length ?_⟩
  rw [length_readRegion inside]
  exact room

end RakudoStar.Foundation
