import Mathlib.Data.Int.Basic

/-!
# Little-endian integers

Fixed-width unsigned and signed integers as bytes, the low byte first. A signed integer that
does not fit is stored modulo the width, and read as its balanced remainder.
-/

namespace RakudoStar.Foundation

open Nat Int

/-- The number of values of a width in bytes. -/
def byteSpan : Nat → Nat
  | 0 => 1
  | width + 1 => 256 * byteSpan width

/-- The `width` low bytes, low byte first. -/
def toBytes : Nat → Nat → List UInt8
  | 0, _ => []
  | width + 1, value => UInt8.ofNat (value % 256) :: toBytes width (value / 256)

def ofBytes : List UInt8 → Nat
  | [] => 0
  | byte :: bytes => byte.toNat + 256 * ofBytes bytes

variable (width value : Nat)

@[simp]
theorem length_toBytes : (toBytes width value).length = width := by
  induction width generalizing value with
  | zero => rfl
  | succ width ih => rw [toBytes, List.length_cons, ih]

theorem ofBytes_toBytes : ofBytes (toBytes width value) = value % byteSpan width := by
  induction width generalizing value with
  | zero => rw [toBytes, ofBytes, byteSpan, mod_one]
  | succ width ih =>
    have low : (UInt8.ofNat (value % 256)).toNat = value % 256 := by
      rw [UInt8.toNat_ofNat']
      exact mod_mod_of_dvd value (Nat.dvd_refl 256)
    rw [toBytes, ofBytes, byteSpan, ih, low, mod_mul]

theorem toBytes_ofBytes (bytes : List UInt8) : toBytes bytes.length (ofBytes bytes) = bytes := by
  induction bytes with
  | nil => rfl
  | cons byte bytes ih =>
    have small : byte.toNat < 256 := byte.toNat_lt
    rw [List.length_cons, toBytes, ofBytes, add_mul_mod_self_left, mod_eq_of_lt small,
      add_mul_div_left _ _ (by decide), div_eq_of_lt small, Nat.zero_add, ih, UInt8.ofNat_toNat]

/-- The bytes of a signed integer in two's complement. -/
def signedToBytes (width : Nat) (value : Int) : List UInt8 :=
  toBytes width (value % byteSpan width).toNat

def signedOfBytes (width : Nat) (bytes : List UInt8) : Int :=
  (ofBytes bytes : Int).bmod (byteSpan width)

variable (width : Nat)

@[simp]
theorem length_signedToBytes (value : Int) :
    (signedToBytes width value).length = width := length_toBytes ..

theorem byteSpan_pos : 0 < byteSpan width := by
  induction width with
  | zero => exact Nat.one_pos
  | succ width ih =>
    exact Nat.mul_pos (by decide) ih

theorem signedOfBytes_toBytes (value : Int) :
    signedOfBytes width (signedToBytes width value) = value.bmod (byteSpan width) := by
  have positive : (byteSpan width : Int) ≠ 0 := by
    have := byteSpan_pos width
    omega
  have nonneg := emod_nonneg value positive
  rw [signedOfBytes, signedToBytes, ofBytes_toBytes, natCast_mod,
    toNat_of_nonneg nonneg, emod_emod_of_dvd value (Int.dvd_refl _), emod_bmod]

end RakudoStar.Foundation
