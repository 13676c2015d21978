import RakudoStar.QRegex.Regex
import RakudoStar.QRegex.Quicksort
import Mathlib.Data.List.Dedup
import Mathlib.Data.List.Perm.Subperm

/-!
# Running an NFA

The states are lists of edges. `nqp_nfa_run` follows all paths at once and orders the fates by
where their edges were crossed last.
-/

namespace RakudoStar.QRegex

open List

/-- The action of an edge with its value; a negated action is one of the `_NEG` actions. -/
inductive Act where
  | fate (arg : Nat)
  | epsilon
  | codepoint (negate : Bool) (arg : Nat)
  | charclass (negate : Bool) (arg : Nat)
  | charlist (negate : Bool) (arg : List Nat)
  | subrule (name : Name)
  deriving DecidableEq, Repr

structure Edge where
  act : Act
  target : Nat
  deriving DecidableEq, Repr

/-- The states, from number 1. State 0 is the list of the `fates` fates. -/
structure Nfa where
  fates : Nat
  states : List (List Edge)
  hasStart : 1 < states.length
  fateArgs : ∀ edges ∈ states, ∀ edge ∈ edges, ∀ arg, edge.act = .fate arg → arg ≤ fates
  targets : ∀ edges ∈ states, ∀ edge ∈ edges,
    (∀ arg, edge.act ≠ .fate arg) → (∀ name, edge.act ≠ .subrule name) → edge.target < states.length

/-- Whether an edge takes a character; `isCclass` is `Parrot_str_is_cclass`. -/
def Act.accepts (isCclass : Nat → Nat → Bool) (char : Nat) : Act → Bool
  | .codepoint negate arg => (char == arg) != negate
  | .charclass negate arg => isCclass arg char != negate
  | .charlist negate arg => arg.contains char != negate
  | _ => false

inductive RunFailure where
  | outOfFuel
  | noState
  | noSlot
  deriving DecidableEq, Repr

/-- The variables of the loop over the states at one offset; the tops of the stacks come
first. -/
structure Visit where
  curst : List Nat
  nextst : List Nat
  done : List Nat
  fates : List Nat
  prevFates : Nat

namespace Nfa

/-- Crossing a fate edge. A fate that is there already moves to the end. -/
def crossFate (nfa : Nfa) (arg : Nat) (visit : Visit) : Except RunFailure Visit :=
  if arg ∈ visit.fates then
    .ok { visit with
      fates := visit.fates.erase arg ++ [arg]
      prevFates :=
        if visit.fates.idxOf arg < visit.prevFates then visit.prevFates - 1 else visit.prevFates }
  else if visit.fates.length < 1 + nfa.fates then
    .ok { visit with fates := visit.fates ++ [arg] }
  else .error .noSlot

/-- One edge of a state, at the character at the offset. -/
def followEdge (nfa : Nfa) (isCclass : Nat → Nat → Bool) (char? : Option Nat) (gen : Nat)
    (edge : Edge) (visit : Visit) : Except RunFailure Visit :=
  match edge.act with
  | .fate arg => nfa.crossFate arg visit
  | .epsilon =>
    if edge.target < nfa.states.length ∧ visit.done.getD edge.target 0 ≠ gen then
      .ok { visit with curst := edge.target :: visit.curst }
    else .ok visit
  | act =>
    if char?.any fun char => act.accepts isCclass char then
      .ok { visit with nextst := edge.target :: visit.nextst }
    else .ok visit

def followEdges (nfa : Nfa) (isCclass : Nat → Nat → Bool) (char? : Option Nat) (gen : Nat) :
    List Edge → Visit → Except RunFailure Visit
  | [], visit => .ok visit
  | edge :: edges, visit =>
    match nfa.followEdge isCclass char? gen edge visit with
    | .error failure => .error failure
    | .ok visit => nfa.followEdges isCclass char? gen edges visit

/-- The loop over the current states. -/
def visitStates (nfa : Nfa) (isCclass : Nat → Nat → Bool) (char? : Option Nat) (gen : Nat) :
    Nat → Visit → Except RunFailure Visit
  | 0, _ => .error .outOfFuel
  | fuel + 1, visit =>
    match visit.curst with
    | [] => .ok visit
    | st :: curst =>
      if st < nfa.states.length ∧ visit.done.getD st 0 = gen then
        nfa.visitStates isCclass char? gen fuel { visit with curst }
      else
        match nfa.states[st]? with
        | none => .error .noState
        | some edges =>
          match nfa.followEdges isCclass char? gen edges
            { visit with curst, done := visit.done.set st gen } with
          | .error failure => .error failure
          | .ok visit => nfa.visitStates isCclass char? gen fuel visit

/-- The fates with those from `prevFates` on in order, as far as the sort goes. -/
def sortFates (visit : Visit) : Except RunFailure (List Nat) :=
  let tail := visit.fates.drop visit.prevFates
  if 1 < tail.length then
    match quicksort (tail.map fun (fate : Nat) => -(fate : Int)) with
    | none => .error .outOfFuel
    | some (sorted, _) =>
      .ok (visit.fates.take visit.prevFates ++ sorted.map fun fate => (-fate).toNat)
  else .ok visit.fates

/-- The loop over the offsets, with the rest of the target. -/
def runFrom (nfa : Nfa) (isCclass : Nat → Nat → Bool) (fuel : Nat) :
    List Nat → Nat → List Nat → List Nat → List Nat → Except RunFailure (List Nat)
  | rest, gen, nextst, done, fates =>
    if nextst = [] then .ok fates
    else
      match nfa.visitStates isCclass rest.head? gen fuel
        { curst := nextst, nextst := [], done, fates, prevFates := fates.length } with
      | .error failure => .error failure
      | .ok visit =>
        match sortFates visit with
        | .error failure => .error failure
        | .ok fates =>
          match rest with
          | [] => .ok fates
          | _ :: rest => nfa.runFrom isCclass fuel rest (gen + 1) visit.nextst visit.done fates

def run (nfa : Nfa) (isCclass : Nat → Nat → Bool) (fuel : Nat) (target : List Nat)
    (offset : Nat) : Except RunFailure (List Nat) :=
  if offset ≤ target.length then
    nfa.runFrom isCclass fuel (target.drop offset) 1 [1] (List.replicate nfa.states.length 0) []
  else .ok []

end Nfa

/-- A visit without its fates, and the fates it crosses. -/
structure Walk where
  curst : List Nat
  nextst : List Nat
  done : List Nat
  crossed : List Nat

namespace Nfa

variable (nfa : Nfa) (isCclass : Nat → Nat → Bool) (char? : Option Nat) (gen : Nat)

def walkEdge (edge : Edge) (walk : Walk) : Walk :=
  match edge.act with
  | .fate arg => { walk with crossed := walk.crossed ++ [arg] }
  | .epsilon =>
    if edge.target < nfa.states.length ∧ walk.done.getD edge.target 0 ≠ gen then
      { walk with curst := edge.target :: walk.curst }
    else walk
  | act =>
    if char?.any fun char => act.accepts isCclass char then
      { walk with nextst := edge.target :: walk.nextst }
    else walk

def walkEdges (edges : List Edge) (walk : Walk) : Walk :=
  edges.foldl (fun walk edge => nfa.walkEdge isCclass char? gen edge walk) walk

/-- The walk through the current states, if the fuel lasts. -/
def walkStates : Nat → Walk → Option Walk
  | 0, _ => none
  | fuel + 1, walk =>
    match walk.curst with
    | [] => some walk
    | st :: curst =>
      if st < nfa.states.length ∧ walk.done.getD st 0 = gen then
        walkStates fuel { walk with curst }
      else
        match nfa.states[st]? with
        | none => none
        | some edges =>
          walkStates fuel (nfa.walkEdges isCclass char? gen edges
            { walk with curst, done := walk.done.set st gen })

end Nfa

/-- The fates not crossed, and those crossed, each where it is crossed last. -/
def crossAll (crossed fates : List Nat) : List Nat :=
  fates.filter (· ∉ crossed) ++ crossed.dedup

variable {fates before : List Nat} {nfa : Nfa} {arg : Nat}

/-- A visit does what a walk does, and crosses what the walk crosses. -/
structure Follows (nfa : Nfa) (before : List Nat) (walk : Walk) (visit : Visit) : Prop where
  curst : visit.curst = walk.curst
  nextst : visit.nextst = walk.nextst
  done : visit.done = walk.done
  fates : visit.fates = crossAll walk.crossed before
  prevFates : visit.prevFates = (before.filter (· ∉ walk.crossed)).length
  args : ∀ arg ∈ walk.crossed, arg ≤ nfa.fates

/-- The fates that an NFA can have got so far. -/
structure Possible (nfa : Nfa) (fates : List Nat) : Prop where
  nodup : fates.Nodup
  args : ∀ arg ∈ fates, arg ≤ nfa.fates

theorem Possible.slot (possible : Possible nfa fates)
    (new : arg ∉ fates) (small : arg ≤ nfa.fates) : fates.length < 1 + nfa.fates := by
  have nodup : (arg :: fates).Nodup := nodup_cons.mpr ⟨new, possible.nodup⟩
  have within : (arg :: fates) ⊆ range (nfa.fates + 1) := by
    intro fate mem
    rw [mem_range]
    rcases mem_cons.mp mem with rfl | old
    · exact Nat.lt_succ_of_le small
    · exact Nat.lt_succ_of_le (possible.args fate old)
  have short := (subperm_of_subset nodup within).length_le
  rw [length_cons, length_range] at short
  omega

section

variable (isCclass : Nat → Nat → Bool) (char? : Option Nat) (gen : Nat) {visit : Visit}
  {walk : Walk}

theorem Follows.push (follows : Follows nfa before walk visit) (taken : Bool) (next : Nat) :
    ∃ after, (if taken = true then
        Except.ok { visit with nextst := next :: visit.nextst } else .ok visit :
          Except RunFailure Visit) = .ok after ∧
      Follows nfa before (if taken = true then
        { walk with nextst := next :: walk.nextst } else walk)
        after := by
  cases taken with
  | true =>
    exact ⟨_, rfl, follows.curst, congrArg (next :: ·) follows.nextst, follows.done,
      follows.fates, follows.prevFates, follows.args⟩
  | false => exact ⟨visit, rfl, follows⟩

end

end RakudoStar.QRegex
