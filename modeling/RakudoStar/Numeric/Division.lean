import RakudoStar.Numeric.Exactness
import Mathlib.Data.Rat.Floor

/-!
# Division, modulus and rounding

`div` and `%` of `Int` and of native `int`, the rounding methods of the role `Rational`, and
`truncate` and `round` of the role `Real`.
-/

namespace RakudoStar.Numeric

open RakudoStar.Except

/-- `infix:<%>` of two `Int`s; zero for a divisor of zero, which is not checked. -/
def mod (a b : Int) : Int := if b = 0 then 0 else a.fmod b

/-- An `INTVAL`, of 64 bits; other results of C arithmetic are undefined. -/
def intval (i : Int) : Option Int :=
  if -9223372036854775808 ≤ i ∧ i < 9223372036854775808 then some i else none

variable {a b : Int}

def Rational.floor (r : Rational) : Except RuntimeError Int :=
  if r.denominator = 1 then .ok r.numerator
  else if r.numerator < 0 then do
    let quotient ← div r.numerator r.denominator
    .ok (quotient - 1)
  else div r.numerator r.denominator

def Rational.int (r : Rational) : Except RuntimeError Int := div r.numerator r.denominator

section

variable {r : Rational} (canonical : r.Canonical)

include canonical

theorem floor_toRat : ⌊r.toRat⌋ = r.numerator / r.denominator := by
  obtain ⟨denominator, same⟩ := Int.eq_ofNat_of_zero_le canonical.positive.le
  rw [Rational.toRat, same]
  exact Rat.floor_intCast_div_natCast r.numerator denominator

theorem div_eq (fraction : r.denominator ≠ 1) : div r.numerator r.denominator =
    .ok (if 0 ≤ r.numerator then ⌊r.toRat⌋ else ⌊r.toRat⌋ + 1) := by
  have cut : ¬ r.denominator ∣ r.numerator := fun divides => fraction (by
    have one := Nat.Coprime.eq_one_of_dvd canonical.coprime.symm (Int.natAbs_dvd_natAbs.mpr divides)
    have positive := canonical.positive
    omega)
  rw [div, if_neg canonical.positive.ne', Int.tdiv_eq_ediv, floor_toRat canonical,
    Int.sign_eq_one_of_pos canonical.positive]
  by_cases sign : 0 ≤ r.numerator
  · rw [if_pos (.inl sign), if_pos sign, add_zero]
  · rw [if_neg (not_or.mpr ⟨sign, cut⟩), if_neg sign]

end

/-- What the operators and `floor` make of floating point numbers. -/
structure Floats where
  plus : Num → Operand → Num
  floor : Num → Int

def half : Operand := .rational .rat ⟨1, 2⟩

/-- `Real.round`, for a rational number. -/
def round (floats : Floats) (type : RationalType) (r : Rational) (scale : Operand) :
    Except RuntimeError Value := do
  let quotient ← infixDivide (.rational type r) scale
  let sum ← match quotient with
    | .exact quotient => infixPlus quotient half
    | .num n => .ok (.num (floats.plus n half))
  let whole ← match sum with
    | .exact (.int i) => .ok i
    | .exact (.rational _ sum) => sum.floor
    | .num n => .ok (floats.floor n)
  infixTimes (.int whole) scale

/-- Would a `Rat` hold the number, or is there a `FatRat` among the operands? -/
def Holds (a b : Operand) (q : ℚ) : Prop := a.isFatRat ∨ b.isFatRat ∨ q.den < 2 ^ 64

theorem nearest {r s : ℚ} (positive : 0 < s) (other : Int) :
    |r - ⌊r / s + 1 / 2⌋ * s| ≤ |r - other * s| ∧
      (|r - other * s| = |r - ⌊r / s + 1 / 2⌋ * s| → other ≤ ⌊r / s + 1 / 2⌋) := by
  have scaled (k : Int) : |r - k * s| = |r / s - k| * s := by
    rw [← abs_of_pos positive, ← abs_mul, abs_of_pos positive, sub_mul,
      div_mul_cancel₀ _ positive.ne']
  rw [scaled, scaled, mul_le_mul_iff_left₀ positive, mul_left_inj' positive.ne']
  have low := Int.floor_le (r / s + 1 / 2)
  have high := Int.lt_floor_add_one (r / s + 1 / 2)
  generalize ⌊r / s + 1 / 2⌋ = near at *
  have near_small : |r / s - near| ≤ 1 / 2 := abs_le.mpr ⟨by linarith, by linarith⟩
  rcases lt_trichotomy other near with less | rfl | more
  · have step : (other : ℚ) + 1 ≤ near := by exact_mod_cast less
    have far : 1 / 2 ≤ |r / s - other| := le_trans (by linarith) (le_abs_self _)
    exact ⟨near_small.trans far, fun _ => less.le⟩
  · exact ⟨le_rfl, fun _ => le_rfl⟩
  · have step : (near : ℚ) + 1 ≤ other := by exact_mod_cast more
    have far : 1 / 2 < |r / s - other| := lt_of_lt_of_le (by linarith) (neg_le_abs _)
    exact ⟨near_small.trans far.le, fun same => absurd (same ▸ near_small) far.not_ge⟩

end RakudoStar.Numeric
