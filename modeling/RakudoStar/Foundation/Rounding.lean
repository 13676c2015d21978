import Mathlib.Data.Nat.Factorization.Basic
import Mathlib.Tactic.Ring

/-!
# Rounding natural numbers

Rounding to a number of significant bits, ties to even, and the numbers that are not
changed by it.
-/

namespace RakudoStar.Rounding

/-- The nearest number of `precision` significant bits; of two, the one whose last bit is
zero. -/
def round (precision n : Nat) : Nat :=
  let unit := 2 ^ (n.log2 + 1 - precision)
  let quotient := n / unit
  let rest := n % unit
  if 2 * rest < unit ∨ (2 * rest = unit ∧ quotient % 2 = 0) then quotient * unit
  else (quotient + 1) * unit

/-- A number of `precision` significant bits. -/
def Representable (precision n : Nat) : Prop :=
  ∃ significand exponent, significand < 2 ^ precision ∧ n = significand * 2 ^ exponent

variable {precision n m : Nat}

theorem representable_of_lt (small : n < 2 ^ precision) : Representable precision n :=
  ⟨n, 0, small, (mul_one n).symm⟩

theorem round_of_representable (representable : Representable precision n) :
    round precision n = n := by
  obtain ⟨significand, exponent, below, rfl⟩ := representable
  rcases eq_zero_or_pos significand with rfl | positive
  · simp [round]
  have nonzero : significand * 2 ^ exponent ≠ 0 := (mul_pos positive (Nat.two_pow_pos exponent)).ne'
  have size : (significand * 2 ^ exponent).log2 < precision + exponent := by
    rw [Nat.log2_lt nonzero, pow_add]
    exact mul_lt_mul_of_pos_right below (Nat.two_pow_pos exponent)
  have divides : 2 ^ ((significand * 2 ^ exponent).log2 + 1 - precision) ∣
      significand * 2 ^ exponent :=
    Dvd.dvd.mul_left (pow_dvd_pow 2 (by omega)) significand
  have nothing := Nat.mod_eq_zero_of_dvd divides
  unfold round
  dsimp only
  rw [nothing, Nat.mul_zero, if_pos (.inl (Nat.two_pow_pos _)), Nat.div_mul_cancel divides]

theorem Representable.of_dvd (representable : Representable precision n) (nonzero : n ≠ 0)
    (divides : m ∣ n) : Representable precision m := by
  obtain ⟨significand, exponent, below, rfl⟩ := representable
  have positive : 0 < significand := Nat.pos_of_ne_zero (left_ne_zero_of_mul nonzero)
  have some : m ≠ 0 := ne_zero_of_dvd_ne_zero nonzero divides
  obtain ⟨twos, odd, isOdd, rfl⟩ := Nat.exists_eq_two_pow_mul_odd some
  have coprime : Nat.Coprime odd (2 ^ exponent) :=
    (Nat.coprime_two_right.mpr isOdd).pow_right exponent
  have divisor : odd ∣ significand :=
    coprime.dvd_of_dvd_mul_right ((dvd_mul_left odd _).trans divides)
  exact ⟨odd, twos, (Nat.le_of_dvd positive divisor).trans_lt below, mul_comm _ _⟩

end RakudoStar.Rounding
