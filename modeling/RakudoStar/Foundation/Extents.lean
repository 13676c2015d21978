import Mathlib.Data.Int.Order.Basic
import Mathlib.Data.List.Pairwise

/-!
# Extents

Stretches of positions, which may be negative. Stretches laid out one behind
another share no position.
-/

namespace RakudoStar.Foundation

/-- The positions from one up to another. -/
structure Extent where
  start : Int
  stop : Int
  deriving DecidableEq, Repr

namespace Extent

/-- The extent lies between two bounds. -/
def Within (low high : Int) (extent : Extent) : Prop :=
  low ≤ extent.start ∧ extent.start ≤ extent.stop ∧ extent.stop ≤ high

/-- Two extents have no position in common. -/
def Apart (first second : Extent) : Prop :=
  ∀ position, first.start ≤ position → position < first.stop →
    second.start ≤ position → ¬position < second.stop

/-- The extents follow one another from a bound on, and end by another. -/
def Follow (high : Int) : Int → List Extent → Prop
  | low, [] => low ≤ high
  | low, extent :: extents =>
    low ≤ extent.start ∧ extent.start ≤ extent.stop ∧ Follow high extent.stop extents

variable {low high : Int} {extents : List Extent}

theorem Follow.low_le (follow : Follow high low extents) : low ≤ high := by
  induction extents generalizing low with
  | nil => exact follow
  | cons extent extents ih =>
    rcases follow with ⟨first, size, rest⟩
    exact le_trans (le_trans first size) (ih rest)

theorem Follow.within (follow : Follow high low extents) :
    ∀ extent ∈ extents, extent.Within low high := by
  induction extents generalizing low with
  | nil => simp
  | cons extent extents ih =>
    rcases follow with ⟨first, size, rest⟩
    intro other member
    rcases List.mem_cons.mp member with rfl | later
    · exact ⟨first, size, rest.low_le⟩
    · rcases ih rest other later with ⟨start, proper, stop⟩
      exact ⟨le_trans (le_trans first size) start, proper, stop⟩

theorem Follow.apart (follow : Follow high low extents) : extents.Pairwise Apart := by
  induction extents generalizing low with
  | nil => exact List.Pairwise.nil
  | cons extent extents ih =>
    rcases follow with ⟨_, _, rest⟩
    apply List.Pairwise.cons _ (ih rest)
    intro other later position _ before start _
    have behind := (rest.within other later).1
    exact absurd (lt_of_lt_of_le before (le_trans behind start)) (lt_irrefl _)

end Extent

end RakudoStar.Foundation
