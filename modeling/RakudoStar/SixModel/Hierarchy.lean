import RakudoStar.Foundation.Except
import Mathlib.Data.List.Basic
import Mathlib.Algebra.Ring.Nat

/-!
# Classes and their method resolution order

A class's local parents and attributes, and the C3 linearization that its `HOW` computed from
those of its parents (`compute_mro` and `c3_merge` of `C3MRO.pm`).
-/

namespace RakudoStar.SixModel

open List

variable {C : Type} [DecidableEq C] {accepted : C} {lists : List (List C)}

/-- The head of a list that is in no tail of the lists before and behind it. -/
def acceptableHead (before behind : List (List C)) (candidates : List C) : Option C :=
  match candidates with
  | [] => none
  | candidate :: _ =>
    if (before ++ behind).any fun list => list.tail.contains candidate then none
    else some candidate

def acceptedHead (before : List (List C)) : List (List C) → Option C
  | [] => none
  | list :: behind =>
    match acceptableHead before behind list with
    | some accepted => some accepted
    | none => acceptedHead (before ++ [list]) behind

theorem acceptedHead_mem {before : List (List C)}
    (found : acceptedHead before lists = some accepted) : ∃ list ∈ lists, accepted ∈ list := by
  induction lists generalizing before with
  | nil => cases found
  | cons list behind ih =>
    unfold acceptedHead at found
    split at found
    · rename_i head acceptable
      cases found
      refine ⟨list, mem_cons_self, ?_⟩
      unfold acceptableHead at acceptable
      split at acceptable
      · cases acceptable
      split at acceptable
      · cases acceptable
      · cases acceptable
        exact mem_cons_self
    · rcases ih found with ⟨other, member, inOther⟩
      exact ⟨other, mem_cons_of_mem _ member, inOther⟩

/-- The number of entries left in the merge lists. -/
def mergeSize (lists : List (List C)) : Nat :=
  (lists.map List.length).sum

def withoutClass (accepted : C) (lists : List (List C)) : List (List C) :=
  lists.map fun list => list.filter (· ≠ accepted)

theorem mergeSize_withoutClass_lt (member : ∃ list ∈ lists, accepted ∈ list) :
    mergeSize (withoutClass accepted lists) < mergeSize lists := by
  have atMost : ∀ list : List C, (list.filter (· ≠ accepted)).length ≤ list.length :=
    fun list => length_filter_le _ list
  induction lists with
  | nil =>
    rcases member with ⟨_, absent, _⟩
    cases absent
  | cons list lists ih =>
    simp only [mergeSize, withoutClass, map_cons, sum_cons] at ih ⊢
    have rest : ((lists.map fun list => list.filter (· ≠ accepted)).map length).sum ≤
        (lists.map length).sum := by
      clear member ih
      induction lists with
      | nil => exact le_rfl
      | cons other lists restHypothesis => exact Nat.add_le_add (atMost other) restHypothesis
    by_cases here : accepted ∈ list
    · have fewer : (list.filter (· ≠ accepted)).length < list.length := by
        apply length_filter_lt_length_iff_exists.mpr
        exact ⟨accepted, here, by simp⟩
      exact Nat.add_lt_add_of_lt_of_le fewer rest
    rcases member with ⟨other, inLists, inOther⟩
    rcases mem_cons.mp inLists with rfl | later
    · exact absurd inOther here
    · exact Nat.add_lt_add_of_le_of_lt (atMost list) (ih ⟨other, later, inOther⟩)

/-- `c3_merge`: take an acceptable head off all lists, until they are empty. -/
def c3Merge (lists : List (List C)) : Except String (List C) :=
  if lists.all List.isEmpty then .ok []
  else
    match _found : acceptedHead [] lists with
    | none => .error "Could not build C3 linearization: ambiguous hierarchy"
    | some accepted =>
      (c3Merge (withoutClass accepted lists)).map (accepted :: ·)
termination_by mergeSize lists
decreasing_by exact mergeSize_withoutClass_lt (acceptedHead_mem _found)

/-- A class, and behind it its only parent's linearization or a merge. -/
def computeMro (parents mro : C → List C) (target : C) : Except String (List C) :=
  match parents target with
  | [] => .ok [target]
  | [parent] => .ok (target :: mro parent)
  | several => (c3Merge (several.map mro ++ [several])).map (target :: ·)

/-- An attribute: name, type, box target, and the container it is vivified to. -/
structure Attribute (T P : Type) where
  name : String
  type : Option T
  boxTarget : Bool
  autoVivContainer : Option P

/-- The classes of a program; the MRO is the one their `HOW` computed. -/
structure Hierarchy (C : Type) [DecidableEq C] (T P : Type) where
  name : C → String
  parents : C → List C
  mro : C → List C
  attributes : C → List (Attribute T P)
  computed : ∀ target, computeMro parents mro target = .ok (mro target)

namespace Hierarchy

variable {T P : Type} (h : Hierarchy C T P) {target : C}

theorem mro_of_parents_nil (root : h.parents target = []) : h.mro target = [target] := by
  have computed := h.computed target
  rw [computeMro, root] at computed
  exact (Except.ok.inj computed).symm

theorem mro_of_parents_single {parent : C} (single : h.parents target = [parent]) :
    h.mro target = target :: h.mro parent := by
  have computed := h.computed target
  rw [computeMro, single] at computed
  exact (Except.ok.inj computed).symm

/-- No class of the MRO has more than one parent. -/
def SingleInheritance (target : C) : Prop :=
  ∀ ancestor ∈ h.mro target, (h.parents ancestor).length ≤ 1

theorem mem_mro_self (target : C) : target ∈ h.mro target := by
  have computed := h.computed target
  unfold computeMro at computed
  split at computed
  · rw [← Except.ok.inj computed]
    exact mem_cons_self
  · rw [← Except.ok.inj computed]
    exact mem_cons_self
  · rcases Except.map_eq_ok_iff.mp computed with ⟨merged, _, mro⟩
    rw [← mro]
    exact mem_cons_self

theorem mro_suffix {ancestor : C} (single : h.SingleInheritance target)
    (member : ancestor ∈ h.mro target) : h.mro ancestor <:+ h.mro target := by
  generalize size : (h.mro target).length = count
  induction count generalizing target with
  | zero =>
    rw [length_eq_zero_iff.mp size] at member
    cases member
  | succ count ih =>
    have fewParents := single target (h.mem_mro_self target)
    rcases parents : h.parents target with _ | ⟨parent, _ | ⟨other, others⟩⟩
    · rw [h.mro_of_parents_nil parents] at member
      cases mem_singleton.mp member
      exact suffix_refl _
    · have mro := h.mro_of_parents_single parents
      rw [mro, mem_cons] at member
      rcases member with rfl | inParent
      · exact suffix_refl _
      have singleParent : h.SingleInheritance parent := by
        intro further inMro
        apply single
        rw [mro]
        exact mem_cons_of_mem _ inMro
      have shorter : (h.mro parent).length = count := by
        rw [mro, length_cons] at size
        exact Nat.succ.inj size
      rw [mro]
      exact (ih singleParent inParent shorter).trans (suffix_cons _ _)
    · rw [parents] at fewParents
      simp at fewParents

end Hierarchy

end RakudoStar.SixModel
