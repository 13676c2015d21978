import Mathlib.Data.List.Pairwise
import RakudoStar.QRegex.Crossings

/-!
# The order of the fates

A run leaves, for each offset, the fates crossed there for the last time, in order as far as the
quick sort gets.
-/

namespace RakudoStar.QRegex

open List

/-- What the sort makes of the fates that are crossed at one offset. -/
def sortDown (fates : List Nat) : List Nat :=
  if 1 < fates.length then
    match quicksort (fates.map fun (fate : Nat) => -(fate : Int)) with
    | some (sorted, _) => sorted.map fun fate => (-fate).toNat
    | none => fates
  else fates

/-- The fates after the walk at one offset. -/
def record (fates crossed : List Nat) : List Nat :=
  fates.filter (· ∉ crossed) ++ sortDown crossed.dedup

namespace Nfa

variable {nfa : Nfa} {isCclass : Nat → Nat → Bool} {nextst done fates : List Nat}

end Nfa

namespace Nfa

variable (nfa : Nfa) (isCclass : Nat → Nat → Bool) (target : List Nat) (offset : Nat)

/-- A number of rounds that is enough for the walk at any offset. -/
def enough : Nat := 2 * edgeCount nfa.states + 2

/-- The fates crossed at each offset, in the order of the loop. -/
def crossed : List (List Nat) :=
  if offset ≤ target.length then
    (nfa.crossings isCclass nfa.enough (target.drop offset) 1 [1]
      (List.replicate nfa.states.length 0)).getD []
  else []

variable {nfa isCclass target offset}

end Nfa

end RakudoStar.QRegex
