import RakudoStar.QRegex.Visiting

/-!
# The fates of the paths

The run of an NFA walks at each offset from the states that the paths have reached there, and
crosses the fates of all paths.
-/

namespace RakudoStar.QRegex

open List Nat

namespace Nfa

/-- The states that the paths from the start lead to, each with its offset. -/
inductive Reaches (nfa : Nfa) (isCclass : Nat → Nat → Bool) (target : List Nat) (offset : Nat) :
    Nat → Nat → Prop
  | start (inside : offset ≤ target.length) : Reaches nfa isCclass target offset 1 offset
  | epsilon {st next place : Nat} (reaches : Reaches nfa isCclass target offset st place)
      (edge : nfa.HasEdge st .epsilon next) : Reaches nfa isCclass target offset next place
  | char {st next place char : Nat} {act : Act}
      (reaches : Reaches nfa isCclass target offset st place) (edge : nfa.HasEdge st act next)
      (found : target[place]? = some char) (accepts : act.accepts isCclass char = true) :
      Reaches nfa isCclass target offset next (place + 1)

/-- Where a path leads to an edge of the fate. -/
def Crosses (nfa : Nfa) (isCclass : Nat → Nat → Bool) (target : List Nat)
    (offset fate place : Nat) : Prop :=
  ∃ st next, nfa.Reaches isCclass target offset st place ∧ nfa.HasEdge st (.fate fate) next

section

variable {nfa : Nfa} {isCclass : Nat → Nat → Bool} {target : List Nat} {offset : Nat}
  {st place : Nat}

section
variable (reaches : nfa.Reaches isCclass target offset st place)
include reaches

theorem Reaches.inside : offset ≤ place ∧ place ≤ target.length := by
  induction reaches with
  | start inside => exact ⟨Nat.le_refl offset, inside⟩
  | epsilon reaches edge ih => exact ih
  | char reaches edge found accepts ih =>
    exact ⟨le_succ_of_le ih.1, (List.getElem?_eq_some_iff.mp found).1⟩

theorem Reaches.first (first : place ≤ offset) : nfa.Near [1] st := by
  induction reaches with
  | start inside => exact .start (mem_singleton_self 1)
  | epsilon reaches edge ih => exact (ih first).epsilon edge
  | char reaches edge found accepts ih =>
    exact absurd (Nat.lt_of_lt_of_le first reaches.inside.1) (Nat.lt_irrefl _)

theorem Reaches.before {earlier : Nat} (atLeast : offset ≤ earlier) (atMost : earlier ≤ place) :
    ∃ source, nfa.Reaches isCclass target offset source earlier := by
  induction reaches with
  | start inside =>
    cases Nat.le_antisymm atLeast atMost
    exact ⟨1, .start inside⟩
  | epsilon reaches edge ih => exact ih atMost
  | char reaches edge found accepts ih =>
    rcases Nat.lt_or_eq_of_le atMost with below | rfl
    · exact ih (le_of_lt_succ below)
    · exact ⟨_, .char reaches edge found accepts⟩

end

end

variable (nfa : Nfa) (isCclass : Nat → Nat → Bool) {fuel more gen : Nat}

/-- The fates that the walks at the offsets cross, one list for each offset. -/
def crossings (fuel : Nat) : List Nat → Nat → List Nat → List Nat → Option (List (List Nat))
  | rest, gen, nextst, done =>
    if nextst = [] then some []
    else
      match nfa.walkStates isCclass rest.head? gen fuel
        { curst := nextst, nextst := [], done, crossed := [] } with
      | none => none
      | some walk =>
        match rest with
        | [] => some [walk.crossed]
        | _ :: rest =>
          (crossings fuel rest (gen + 1) walk.nextst walk.done).map (walk.crossed :: ·)

/-- What is known between two offsets. -/
structure Between (target : List Nat) (offset place : Nat) (rest : List Nat) (gen : Nat)
    (nextst done : List Nat) : Prop where
  rest : target.drop place = rest
  within : offset ≤ place ∧ place ≤ target.length
  length : done.length = nfa.states.length
  marks : ∀ st, done.getD st 0 < gen
  states : ∀ st ∈ nextst, st < nfa.states.length
  short : nextst.length ≤ edgeCount nfa.states + 1
  near : ∀ st, nfa.Near nextst st ↔ nfa.Reaches isCclass target offset st place

theorem Between.start {target : List Nat} {offset : Nat} (inside : offset ≤ target.length) :
    Between nfa isCclass target offset offset (target.drop offset) 1 [1]
      (List.replicate nfa.states.length 0) := by
  refine ⟨rfl, ⟨Nat.le_refl offset, inside⟩, length_replicate, fun st => ?_, fun st mem => ?_,
    Nat.le_add_left 1 _, fun st => ⟨fun near => ?_, fun reaches => ?_⟩⟩
  · rw [getD_eq_getElem?_getD, getElem?_replicate]
    split <;> exact Nat.zero_lt_one
  · rw [mem_singleton.mp mem]
    exact nfa.hasStart
  · induction near with
    | start mem =>
      rw [mem_singleton.mp mem]
      exact .start inside
    | epsilon near edge ih => exact ih.epsilon edge
  · exact reaches.first (Nat.le_refl offset)

section

variable {nfa : Nfa} {isCclass : Nat → Nat → Bool} {target : List Nat} {offset place : Nat}
  {rest : List Nat} {gen : Nat} {nextst done : List Nat}

section
variable (between : Between nfa isCclass target offset place rest gen nextst done)
include between

theorem Between.walking : Walking nfa isCclass rest.head? gen nextst
      { curst := nextst, nextst := [], done, crossed := [] } := by
  have unmarked : ∀ st, done.getD st 0 ≠ gen := fun st => Nat.ne_of_lt (between.marks st)
  refine ⟨between.length, fun st => Nat.le_of_lt (between.marks st),
    fun st marked => absurd marked (unmarked st), fun st mem => .start mem,
    fun st mem => .inr mem, fun st next marked => absurd marked (unmarked st),
    fun fate => ?_, fun next => ?_⟩
  all_goals simp only [unmarked, false_and, exists_false, not_mem_nil]

theorem Between.walks (enough : 2 * edgeCount nfa.states + 1 < fuel) :
    ∃ last, nfa.walkStates isCclass rest.head? gen fuel
        { curst := nextst, nextst := [], done, crossed := [] } = some last ∧
      Walking nfa isCclass rest.head? gen nextst last ∧ last.curst = [] ∧
      last.nextst.length ≤ edgeCount nfa.states := by
  have left := pending_le gen nfa.states done
  have short := between.short
  refine walkStates_ends between.walking between.states ?_ ?_
  · dsimp only
    omega
  · rw [length_nil, Nat.zero_add]
    exact left

end

theorem Between.next {char : Nat}
    (between : Between nfa isCclass target offset place (char :: rest) gen nextst done)
    {last : Walk} (walking : Walking nfa isCclass (some char) gen nextst last)
    (finished : last.curst = []) (short : last.nextst.length ≤ edgeCount nfa.states) :
    Between nfa isCclass target offset (place + 1) rest (gen + 1) last.nextst last.done := by
  have found : target[place]? = some char := by
    rw [← head?_drop, between.rest]
    rfl
  have inside : place < target.length := (List.getElem?_eq_some_iff.mp found).1
  have taken : ∀ next, next ∈ last.nextst ↔
      ∃ st act, nfa.Reaches isCclass target offset st place ∧ nfa.HasEdge st act next ∧
        act.accepts isCclass char = true := by
    intro next
    rw [walking.nextst]
    simp only [walking.visited finished, between.near, Option.any_some]
  refine ⟨?_, ⟨le_succ_of_le between.within.1, inside⟩, walking.length,
    fun st => lt_succ_of_le (walking.marks st), fun st mem => ?_,
    le_succ_of_le short, fun st => ⟨fun near => ?_, fun reaches => ?_⟩⟩
  · rw [← tail_drop, between.rest]
    rfl
  · rcases (taken st).mp mem with ⟨source, act, _, edge, accepts⟩
    exact edge.accepts_target accepts
  · induction near with
    | start mem =>
      rcases (taken _).mp mem with ⟨source, act, reaches, edge, accepts⟩
      exact .char reaches edge found accepts
    | epsilon near edge ih => exact ih.epsilon edge
  generalize same : place + 1 = later at reaches
  induction reaches with
  | start inside => exact absurd between.within.1 (same ▸ not_succ_le_self _)
  | epsilon reaches edge ih => exact (ih same).epsilon edge
  | char reaches edge found' accepts ih =>
    cases Nat.succ.inj same
    cases found.symm.trans found'
    exact .start ((taken _).mpr ⟨_, _, reaches, edge, accepts⟩)

theorem Between.ended (between : Between nfa isCclass target offset place rest gen [] done)
    {fate later : Nat} (atLeast : place ≤ later) :
    ¬ nfa.Crosses isCclass target offset fate later := by
  rintro ⟨st, next, reaches, _⟩
  rcases reaches.before between.within.1 atLeast with ⟨source, reached⟩
  have near := (between.near source).mpr reached
  induction near with
  | start mem => cases mem
  | epsilon near edge ih =>
    exact ih ((between.near _).mp near)

end

end Nfa

end RakudoStar.QRegex
