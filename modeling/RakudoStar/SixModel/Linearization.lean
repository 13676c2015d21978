import RakudoStar.SixModel.Hierarchy
import RakudoStar.Foundation.Merging
import Mathlib.Data.List.Perm.Subperm
import Mathlib.Order.WellFounded

/-!
# The C3 linearization of a class

`c3_merge` finds a merge whenever there is one; `compute_mro` puts the class in front of a merge
of the parents' linearizations and the list of parents.
-/

namespace RakudoStar.SixModel

open Foundation List

variable {C : Type} [DecidableEq C]

/-- What `c3_merge` dies with. -/
def ambiguousHierarchy : String :=
  "Could not build C3 linearization: ambiguous hierarchy"

variable {lists : List (List C)} {accepted head : C} {candidates : List C}
  {before behind : List (List C)}

theorem acceptableHead_eq_some
    (acceptable : acceptableHead before behind candidates = some accepted) :
    candidates.head? = some accepted ∧ ∀ list ∈ before ++ behind, accepted ∉ list.tail := by
  unfold acceptableHead at acceptable
  split at acceptable
  · cases acceptable
  rename_i head rest
  split at acceptable
  · cases acceptable
  rename_i notInTails
  cases acceptable
  apply And.intro rfl
  intro list inLists inTail
  apply notInTails
  exact any_eq_true.mpr ⟨list, inLists, contains_iff_mem.mpr inTail⟩

theorem acceptableHead_eq_none (refused : acceptableHead before behind candidates = none)
    (first : candidates.head? = some head) : ∃ list ∈ before ++ behind, head ∈ list.tail := by
  cases candidates with
  | nil => cases first
  | cons candidate rest =>
    cases first
    simp only [acceptableHead] at refused
    split at refused
    · rename_i inTails
      rcases any_eq_true.mp inTails with ⟨list, inLists, inTail⟩
      exact ⟨list, inLists, contains_iff_mem.mp inTail⟩
    · cases refused

theorem acceptedHead_eq_some (found : acceptedHead before lists = some accepted) :
    ∃ candidates ∈ lists, candidates.head? = some accepted ∧
      ∀ list ∈ before ++ lists, list = candidates ∨ accepted ∉ list.tail := by
  induction lists generalizing before with
  | nil => cases found
  | cons list behind ih =>
    unfold acceptedHead at found
    split at found
    · rename_i head acceptable
      cases found
      rcases acceptableHead_eq_some acceptable with ⟨first, notInTails⟩
      refine ⟨list, mem_cons_self, first, ?_⟩
      intro other inLists
      rcases mem_append.mp inLists with inBefore | inRest
      · exact .inr (notInTails other (mem_append_left _ inBefore))
      rcases mem_cons.mp inRest with same | inBehind
      · exact .inl same
      · exact .inr (notInTails other (mem_append_right _ inBehind))
    rcases ih found with ⟨candidates, inBehind, first, notInTails⟩
    refine ⟨candidates, mem_cons_of_mem _ inBehind, first, ?_⟩
    intro other inLists
    apply notInTails
    rwa [append_assoc, singleton_append]

theorem acceptedHead_eq_none (refused : acceptedHead before lists = none)
    (inLists : candidates ∈ lists)
    (first : candidates.head? = some head) : ∃ list ∈ before ++ lists, head ∈ list.tail := by
  induction lists generalizing before with
  | nil => cases inLists
  | cons list behind ih =>
    unfold acceptedHead at refused
    split at refused
    · cases refused
    rename_i notAcceptable
    rcases mem_cons.mp inLists with rfl | inBehind
    · rcases acceptableHead_eq_none notAcceptable first with ⟨other, member, inTail⟩
      refine ⟨other, ?_, inTail⟩
      rcases mem_append.mp member with inBefore | later
      · exact mem_append_left _ inBefore
      · exact mem_append_right _ (mem_cons_of_mem _ later)
    · rcases ih refused inBehind with ⟨other, member, inTail⟩
      refine ⟨other, ?_, inTail⟩
      rwa [append_assoc, singleton_append] at member

theorem leads_of_acceptedHead (nodup : ∀ list ∈ lists, list.Nodup)
    (found : acceptedHead [] lists = some accepted) :
    Leads accepted lists ∧ ∃ list ∈ lists, accepted ∈ list := by
  rcases acceptedHead_eq_some found with ⟨candidates, inLists, first, notInTails⟩
  rcases head?_eq_some_iff.mp first with ⟨rest, candidatesEq⟩
  constructor
  · intro list member
    rcases notInTails list member with same | absent
    · have distinct := nodup candidates inLists
      rw [candidatesEq] at distinct same
      rw [same]
      exact (nodup_cons.mp distinct).1
    · exact absent
  · refine ⟨candidates, inLists, ?_⟩
    rw [candidatesEq]
    exact mem_cons_self

theorem withoutClass_nodup (nodup : ∀ list ∈ lists, list.Nodup) (accepted : C) :
    ∀ list ∈ withoutClass accepted lists, list.Nodup := by
  intro filtered inMap
  rcases mem_map.mp inMap with ⟨list, inLists, rfl⟩
  exact (nodup list inLists).filter _

theorem acceptedHead_of_merges {order : List C} (merge : Merges lists order)
    (left : lists.all List.isEmpty = false) : acceptedHead [] lists ≠ none := by
  intro refused
  cases order with
  | nil =>
    rcases all_eq_false.mp left with ⟨list, inLists, notEmpty⟩
    rcases exists_mem_of_ne_nil list (by simpa using notEmpty) with ⟨entry, inList⟩
    cases (merge.members entry).mpr ⟨list, inLists, inList⟩
  | cons first rest =>
    have leads := merge.leads_head
    rcases (merge.members first).mp mem_cons_self with ⟨list, inLists, inList⟩
    rcases Merges.head_of_leads leads inLists inList with ⟨tail, listEq⟩
    have head : list.head? = some first := by rw [listEq]; rfl
    rcases acceptedHead_eq_none refused inLists head with ⟨other, member, inTail⟩
    exact leads other member inTail

theorem c3Merge_of_refused (left : ¬lists.all List.isEmpty = true)
    (refused : acceptedHead [] lists = none) : c3Merge lists = .error ambiguousHierarchy := by
  rw [c3Merge, if_neg left]
  split
  · rfl
  rename_i accepted found
  rw [refused] at found
  cases found

theorem c3Merge_of_accepted (left : ¬lists.all List.isEmpty = true)
    (found : acceptedHead [] lists = some accepted) :
    c3Merge lists = (c3Merge (withoutClass accepted lists)).map (accepted :: ·) := by
  rw [c3Merge, if_neg left]
  split
  · rename_i refused
    rw [found] at refused
    cases refused
  rename_i other again
  rw [found] at again
  cases again
  rfl

/-- It returns a merge of lists without repetition, and dies only if there is none. -/
theorem c3Merge_merges (lists : List (List C)) (nodup : ∀ list ∈ lists, list.Nodup) :
    (∃ order, c3Merge lists = .ok order ∧ Merges lists order) ∨
      (c3Merge lists = .error ambiguousHierarchy ∧ ∀ order, ¬Merges lists order) := by
  induction lists using c3Merge.induct with
  | case1 lists empty =>
    left
    refine ⟨[], by rw [c3Merge, if_pos empty], Merges.nil_of_empty ?_⟩
    intro list inLists
    simpa using all_eq_true.mp empty list inLists
  | case2 lists left refused =>
    right
    apply And.intro (c3Merge_of_refused left refused)
    intro order merge
    exact acceptedHead_of_merges merge (by simpa using left) refused
  | case3 lists left accepted found ih =>
    rcases leads_of_acceptedHead nodup found with ⟨leads, present⟩
    rw [c3Merge_of_accepted left found]
    rcases ih (withoutClass_nodup nodup accepted) with
      ⟨rest, restEq, merge⟩ | ⟨dies, none⟩
    · left
      rw [restEq]
      exact ⟨_, rfl, Merges.cons_of_leads leads present merge⟩
    right
    rw [dies]
    exact ⟨rfl, fun order merge => none _ (merge.without accepted)⟩

theorem c3Merge_ends (lists : List (List C)) :
    (∃ order, c3Merge lists = .ok order) ∨ c3Merge lists = .error ambiguousHierarchy := by
  induction lists using c3Merge.induct with
  | case1 lists empty => exact .inl ⟨[], by rw [c3Merge, if_pos empty]⟩
  | case2 lists left refused => exact .inr (c3Merge_of_refused left refused)
  | case3 lists left accepted found ih =>
    rw [c3Merge_of_accepted left found]
    rcases ih with ⟨rest, restEq⟩ | dies
    · exact .inl ⟨_, by rw [restEq]; rfl⟩
    · exact .inr (by rw [dies]; rfl)

section

variable (parents mro : C → List C) (target : C)

/-- No class is its own ancestor, and each parent is added once, linearized. -/
structure Inheritance : Prop where
  distinct : (parents target).Nodup
  starts : ∀ parent ∈ parents target, ∃ rest, mro parent = parent :: rest
  nodup : ∀ parent ∈ parents target, (mro parent).Nodup
  acyclic : ∀ parent ∈ parents target, target ∉ mro parent

/-- An order that agrees with the parents' linearizations and their order. -/
structure Linearizes (order : List C) : Prop where
  starts : ∃ rest, order = target :: rest
  nodup : order.Nodup
  members : ∀ ancestor, ancestor ∈ order ↔
    ancestor = target ∨ ∃ parent ∈ parents target, ancestor ∈ mro parent
  mros : ∀ parent ∈ parents target, (mro parent).Sublist order
  locals : (parents target).Sublist order

/-- The lists that `compute_mro` merges for a class with several parents. -/
def mergeList : List (List C) :=
  (parents target).map mro ++ [parents target]

variable {parents mro target}

namespace Inheritance

variable (inheritance : Inheritance parents mro target)

include inheritance

section
omit [DecidableEq C]

theorem parent_mem_mro {parent : C} (isParent : parent ∈ parents target) : parent ∈ mro parent := by
  rcases inheritance.starts parent isParent with ⟨rest, mroEq⟩
  rw [mroEq]
  exact mem_cons_self

theorem mergeList_nodup : ∀ list ∈ mergeList parents mro target, list.Nodup := by
  intro list inLists
  rcases mem_append.mp inLists with inMros | isParents
  · rcases mem_map.mp inMros with ⟨parent, isParent, rfl⟩
    exact inheritance.nodup parent isParent
  · rw [mem_singleton.mp isParents]
    exact inheritance.distinct

theorem mem_mergeList (ancestor : C) : (∃ list ∈ mergeList parents mro target, ancestor ∈ list) ↔
      ∃ parent ∈ parents target, ancestor ∈ mro parent := by
  constructor
  · rintro ⟨list, inLists, member⟩
    rcases mem_append.mp inLists with inMros | isParents
    · rcases mem_map.mp inMros with ⟨parent, isParent, rfl⟩
      exact ⟨parent, isParent, member⟩
    · rw [mem_singleton.mp isParents] at member
      exact ⟨ancestor, member, inheritance.parent_mem_mro member⟩
  · rintro ⟨parent, isParent, member⟩
    exact ⟨mro parent, mem_append_left _ (mem_map_of_mem isParent), member⟩

theorem target_not_mem {list : List C} (inLists : list ∈ mergeList parents mro target) :
    target ∉ list := by
  intro member
  rcases (inheritance.mem_mergeList target).mp ⟨list, inLists, member⟩ with
    ⟨parent, isParent, cyclic⟩
  exact inheritance.acyclic parent isParent cyclic

theorem linearizes_cons_iff {rest : List C} : Linearizes parents mro target (target :: rest) ↔
      Merges (mergeList parents mro target) rest := by
  constructor
  · intro linearizes
    have absent := (nodup_cons.mp linearizes.nodup).1
    refine ⟨(nodup_cons.mp linearizes.nodup).2, ?_, ?_⟩
    · intro entry
      rw [inheritance.mem_mergeList]
      have members := linearizes.members entry
      rw [mem_cons] at members
      constructor
      · intro member
        rcases members.mp (.inr member) with rfl | isAncestor
        · exact absurd member absent
        · exact isAncestor
      intro isAncestor
      rcases members.mpr (.inr isAncestor) with rfl | member
      · rcases isAncestor with ⟨parent, isParent, cyclic⟩
        exact absurd cyclic (inheritance.acyclic parent isParent)
      · exact member
    intro list inLists
    have sublist : list.Sublist (target :: rest) := by
      rcases mem_append.mp inLists with inMros | isParents
      · rcases mem_map.mp inMros with ⟨parent, isParent, rfl⟩
        exact linearizes.mros parent isParent
      · rw [mem_singleton.mp isParents]
        exact linearizes.locals
    cases sublist with
    | cons _ inRest => exact inRest
    | cons_cons _ inRest =>
      exact absurd mem_cons_self (inheritance.target_not_mem inLists)
  · intro merge
    have absent : target ∉ rest := by
      intro member
      rcases (merge.members target).mp member with ⟨list, inLists, inList⟩
      exact inheritance.target_not_mem inLists inList
    refine ⟨⟨rest, rfl⟩, nodup_cons.mpr ⟨absent, merge.nodup⟩, ?_, ?_, ?_⟩
    · intro ancestor
      rw [mem_cons, merge.members ancestor, inheritance.mem_mergeList]
    · intro parent isParent
      have inLists : mro parent ∈ mergeList parents mro target :=
        mem_append_left _ (mem_map_of_mem isParent)
      exact (merge.sublists _ inLists).cons target
    · have inLists : parents target ∈ mergeList parents mro target :=
        mem_append_right _ (mem_singleton.mpr rfl)
      exact (merge.sublists _ inLists).cons target

end

end Inheritance

/-- Merging an only parent's linearization with its list gives it back. -/
theorem c3Merge_single {parent : C} (nodup : (mro parent).Nodup)
    (starts : ∃ rest, mro parent = parent :: rest) :
    c3Merge [mro parent, [parent]] = .ok (mro parent) := by
  have member : parent ∈ mro parent := by
    rcases starts with ⟨rest, mroEq⟩
    rw [mroEq]
    exact mem_cons_self
  have merge : Merges [mro parent, [parent]] (mro parent) := by
    refine ⟨nodup, ?_, ?_⟩
    · intro entry
      constructor
      · intro inMro
        exact ⟨_, mem_cons_self, inMro⟩
      rintro ⟨list, inLists, inList⟩
      rcases mem_cons.mp inLists with rfl | isParent
      · exact inList
      rw [mem_singleton.mp isParent, mem_singleton] at inList
      rw [inList]
      exact member
    intro list inLists
    rcases mem_cons.mp inLists with rfl | isParent
    · exact List.Sublist.refl _
    · rw [mem_singleton.mp isParent]
      exact singleton_sublist.mpr member
  have listsNodup : ∀ list ∈ [mro parent, [parent]], list.Nodup := by
    intro list inLists
    rcases mem_cons.mp inLists with rfl | isParent
    · exact nodup
    · rw [mem_singleton.mp isParent]
      exact nodup_singleton parent
  rcases c3Merge_merges _ listsNodup with ⟨order, found, other⟩ | ⟨_, none⟩
  · -- The linearization is a subsequence of the merge and holds as much.
    have sublist := other.sublists _ mem_cons_self
    have subset : order ⊆ mro parent := by
      intro entry inOrder
      exact (merge.members entry).mpr ((other.members entry).mp inOrder)
    have atMost : order.length ≤ (mro parent).length := (other.nodup.subperm subset).length_le
    rw [found, sublist.eq_of_length_le atMost]
  · exact absurd merge (none _)

theorem computeMro_eq_merge (inheritance : Inheritance parents mro target) :
    computeMro parents mro target = (c3Merge (mergeList parents mro target)).map (target :: ·) := by
  unfold computeMro mergeList
  split
  · rename_i root
    rw [root, c3Merge, if_pos (by simp)]
    rfl
  · rename_i parent single
    have isParent : parent ∈ parents target := by
      rw [single]
      exact mem_cons_self
    have merged := c3Merge_single (inheritance.nodup parent isParent)
      (inheritance.starts parent isParent)
    rw [single, map_singleton, singleton_append, merged]
    rfl
  · rfl

/-- It returns an order that agrees with the parents, or there is none. -/
theorem computeMro_linearizes (inheritance : Inheritance parents mro target) :
    (∃ order, computeMro parents mro target = .ok order ∧ Linearizes parents mro target order) ∨
      (computeMro parents mro target = .error ambiguousHierarchy ∧
        ∀ order, ¬Linearizes parents mro target order) := by
  rw [computeMro_eq_merge inheritance]
  rcases c3Merge_merges _ inheritance.mergeList_nodup with ⟨rest, found, merge⟩ | ⟨dies, none⟩
  · left
    rw [found]
    exact ⟨_, rfl, inheritance.linearizes_cons_iff.mpr merge⟩
  right
  rw [dies]
  apply And.intro rfl
  intro order linearizes
  rcases linearizes.starts with ⟨rest, rfl⟩
  exact none rest (inheritance.linearizes_cons_iff.mp linearizes)

/-- A class or one it inherits from. -/
def IsAncestor (parents : C → List C) (target ancestor : C) : Prop :=
  Relation.ReflTransGen (fun child parent => parent ∈ parents child) target ancestor

omit [DecidableEq C] in
theorem Linearizes.mem_iff_isAncestor {order : List C}
    (linearizes : Linearizes parents mro target order)
    (complete : ∀ parent ∈ parents target, ∀ ancestor,
      ancestor ∈ mro parent ↔ IsAncestor parents parent ancestor) (ancestor : C) :
    ancestor ∈ order ↔ IsAncestor parents target ancestor := by
  rw [linearizes.members ancestor]
  constructor
  · rintro (rfl | ⟨parent, isParent, member⟩)
    · exact .refl
    · exact .head isParent ((complete parent isParent ancestor).mp member)
  intro isAncestor
  rcases Relation.ReflTransGen.cases_head isAncestor with rfl | ⟨parent, isParent, further⟩
  · exact .inl rfl
  · exact .inr ⟨parent, isParent, (complete parent isParent ancestor).mpr further⟩

/-- The C3 linearization: what `compute_mro` returns, when it dies, and that the
merge always ends and the short cut for an only parent changes nothing. -/
theorem computeMro_correct (parents mro : C → List C) (target : C)
    (inheritance : Inheritance parents mro target) :
    (∀ order, computeMro parents mro target = .ok order → Linearizes parents mro target order ∧
        ((∀ parent ∈ parents target, ∀ ancestor,
            ancestor ∈ mro parent ↔ IsAncestor parents parent ancestor) →
          ∀ ancestor, ancestor ∈ order ↔ IsAncestor parents target ancestor)) ∧
    (∀ message, computeMro parents mro target = .error message → message = ambiguousHierarchy) ∧
    ((∃ message, computeMro parents mro target = .error message) ↔
      ¬∃ order, Linearizes parents mro target order) ∧ (∀ lists : List (List C),
      (∃ order, c3Merge lists = .ok order) ∨ c3Merge lists = .error ambiguousHierarchy) ∧
    (∀ parent, parents target = [parent] → computeMro parents mro target =
        (c3Merge [mro parent, [parent]]).map (target :: ·)) := by
  have shortcut : ∀ parent, parents target = [parent] → computeMro parents mro target =
        (c3Merge [mro parent, [parent]]).map (target :: ·) := by
    intro parent single
    rw [computeMro_eq_merge inheritance, mergeList, single]
    rfl
  rcases computeMro_linearizes inheritance with ⟨order, returns, linearizes⟩ | ⟨dies, none⟩
  · refine ⟨?_, ?_, ?_, c3Merge_ends, shortcut⟩
    · intro other same
      rw [returns] at same
      cases same
      exact ⟨linearizes, linearizes.mem_iff_isAncestor⟩
    · intro message dies
      rw [returns] at dies
      cases dies
    constructor
    · rintro ⟨message, dies⟩
      rw [returns] at dies
      cases dies
    · intro none
      exact absurd ⟨order, linearizes⟩ none
  refine ⟨?_, ?_, ?_, c3Merge_ends, shortcut⟩
  · intro other same
    rw [dies] at same
    cases same
  · intro message same
    rw [dies] at same
    cases same
    rfl
  constructor
  · rintro - ⟨order, linearizes⟩
    exact none order linearizes
  · intro
    exact ⟨_, dies⟩

/-- The diamond: `3` inherits from `1` and `2`, which inherit from `0`. -/
def diamondParents : Fin 4 → List (Fin 4)
  | 0 => []
  | 1 => [0]
  | 2 => [0]
  | 3 => [1, 2]

def diamondMro : Fin 4 → List (Fin 4)
  | 0 => [0]
  | 1 => [1, 0]
  | 2 => [2, 0]
  | 3 => [3, 1, 2, 0]

theorem diamond_inheritance : Inheritance diamondParents diamondMro 3 where
  distinct := by decide
  starts := by
    intro parent isParent
    rcases mem_cons.mp isParent with rfl | isParent
    · exact ⟨[0], rfl⟩
    · rw [mem_singleton.mp isParent]
      exact ⟨[0], rfl⟩
  nodup := by decide
  acyclic := by decide

theorem computeMro_correct_diamond : Linearizes diamondParents diamondMro 3 [3, 1, 2, 0] := by
  have returns : computeMro diamondParents diamondMro 3 = .ok [3, 1, 2, 0] := by
    simp [computeMro, diamondParents, diamondMro, c3Merge, acceptedHead, acceptableHead,
      withoutClass, Except.map]
  exact ((computeMro_correct diamondParents diamondMro 3 diamond_inheritance).1 _ returns).1

end

end RakudoStar.SixModel
