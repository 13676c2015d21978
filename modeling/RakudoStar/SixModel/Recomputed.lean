import RakudoStar.SixModel.Linearization
import Mathlib.Algebra.Order.BigOperators.Group.List
import Mathlib.Algebra.Order.Ring.Nat

/-!
# Three computations of the C3 linearization

`compute_mro` of `C3MRO.pm` reads the linearizations that the parents have stored;
`compute_c3_mro` of `NQPClassHOW.pm` and `Parrot_ComputeMRO_C3` of `oo.c` compute them anew, and
the latter merges for an only parent, too.
-/

namespace RakudoStar.SixModel

open List

variable {C : Type} [DecidableEq C] {parents mro : C → List C} {target : C} {lists : List (List C)}

/-- What is left of the lists where a class is deleted once from each. -/
def eraseClass (accepted : C) (lists : List (List C)) : List (List C) :=
  lists.map (·.erase accepted)

theorem mergeSize_eraseClass_lt {accepted : C} (member : ∃ list ∈ lists, accepted ∈ list) :
    mergeSize (eraseClass accepted lists) < mergeSize lists := by
  rw [mergeSize, eraseClass, map_map]
  rcases member with ⟨list, inLists, inList⟩
  refine sum_lt_sum _ _ (fun list _ => length_erase_le) ⟨list, inLists, ?_⟩
  have positive := length_pos_of_mem inList
  rw [Function.comp_apply, length_erase_of_mem inList]
  omega

theorem eraseClass_eq (nodup : ∀ list ∈ lists, list.Nodup) (accepted : C) :
    eraseClass accepted lists = withoutClass accepted lists := by
  apply map_congr_left
  intro list inLists
  rw [(nodup list inLists).erase_eq_filter accepted]
  exact filter_congr fun entry _ => by grind

def parrotC3Merge (lists : List (List C)) : Except String (List C) :=
  if lists.all List.isEmpty then .ok []
  else
    match _found : acceptedHead [] lists with
    | none => .error "Could not build C3 linearization: ambiguous hierarchy"
    | some accepted => (parrotC3Merge (eraseClass accepted lists)).map (accepted :: ·)
termination_by mergeSize lists
decreasing_by exact mergeSize_eraseClass_lt (acceptedHead_mem _found)

def computeC3Mro (acyclic : WellFounded fun parent child => parent ∈ parents child) (target : C) :
    Except String (List C) :=
  match _same : parents target with
  | [] => .ok [target]
  | [parent] => (computeC3Mro acyclic parent).map (target :: ·)
  | several => do
    let mros ← several.attach.mapM fun parent => computeC3Mro acyclic parent.val
    (c3Merge (mros ++ [several])).map (target :: ·)
termination_by acyclic.wrap target
decreasing_by
  · simp_all [WellFounded.wrap]
  · exact _same ▸ parent.property

def parrotComputeMroC3 (acyclic : WellFounded fun parent child => parent ∈ parents child)
    (target : C) : Except String (List C) :=
  match _same : parents target with
  | [] => .ok [target]
  | several => do
    let mros ← several.attach.mapM fun parent => parrotComputeMroC3 acyclic parent.val
    (parrotC3Merge (mros ++ [several])).map (target :: ·)
termination_by acyclic.wrap target
decreasing_by exact _same ▸ parent.property

/-- `calculate_mro`, with the linearizations that the classes have stored. -/
def calculateMro (acyclic : WellFounded fun parent child => parent ∈ parents child)
    (allParents : C → List C) (target : C) : Except String (List C) :=
  match parents target with
  | [] => .ok (allParents target)
  | [parent] => .ok (target :: allParents parent)
  | _ => parrotComputeMroC3 acyclic target

theorem parrotC3Merge_eq (nodup : ∀ list ∈ lists, list.Nodup) :
    parrotC3Merge lists = c3Merge lists := by
  induction lists using c3Merge.induct with
  | case1 lists empty => rw [c3Merge, parrotC3Merge, if_pos empty, if_pos empty]
  | case2 lists left refused =>
    rw [c3Merge_of_refused left refused, parrotC3Merge, if_neg left]
    split
    · rfl
    rename_i accepted found
    rw [refused] at found
    cases found
  | case3 lists left accepted found ih =>
    rw [c3Merge_of_accepted left found, ← ih (withoutClass_nodup nodup accepted),
      ← eraseClass_eq nodup, parrotC3Merge, if_neg left]
    split
    · rename_i refused
      rw [found] at refused
      cases refused
    rename_i other again
    rw [found] at again
    cases again
    rfl

theorem mapM_ok {A B : Type} {f : A → Except String B} {g : A → B} {entries : List A}
    (known : ∀ entry ∈ entries, f entry = .ok (g entry)) :
    entries.mapM f = .ok (entries.map g) := by
  induction entries with
  | nil => rfl
  | cons entry rest ih =>
    rw [mapM_cons, known entry mem_cons_self, ih fun other inRest =>
      known other (mem_cons_of_mem _ inRest)]
    rfl

theorem mapM_stops {A B : Type} {f : A → Except String B} {entries : List A} {results : List B}
    (done : entries.mapM f = .ok results) : ∀ entry ∈ entries, ∃ result, f entry = .ok result := by
  induction entries generalizing results with
  | nil => nofun
  | cons entry rest ih =>
    rw [mapM_cons] at done
    rcases Except.bind_eq_ok_iff.mp done with ⟨first, found, done⟩
    rcases Except.bind_eq_ok_iff.mp done with ⟨others, further, -⟩
    rintro other (_ | ⟨_, inRest⟩)
    · exact ⟨first, found⟩
    · exact ih further other inRest

theorem mapM_ends {A B : Type} {f : A → Except String B} {entries : List A} {message : String}
    (ends : ∀ entry ∈ entries, (∃ result, f entry = .ok result) ∨ f entry = .error message) :
    (∃ results, entries.mapM f = .ok results) ∨ entries.mapM f = .error message := by
  induction entries with
  | nil => exact .inl ⟨[], rfl⟩
  | cons entry rest ih =>
    rw [mapM_cons]
    rcases ends entry mem_cons_self with ⟨first, found⟩ | dies
    · rw [found]
      rcases ih fun other inRest => ends other (mem_cons_of_mem _ inRest)
        with ⟨others, further⟩ | dies
      · exact .inl ⟨first :: others, by rw [further]; rfl⟩
      · exact .inr (by rw [dies]; rfl)
    · exact .inr (by rw [dies]; rfl)

variable {acyclic : WellFounded fun parent child => parent ∈ parents child} {order : List C}

/-- Computed anew, the linearization is the one that stored linearizations give. -/
theorem computeC3Mro_eq (mro : C → List C)
    (known : ∀ parent ∈ parents target, computeC3Mro acyclic parent = .ok (mro parent)) :
    computeC3Mro acyclic target = computeMro parents mro target := by
  rw [computeC3Mro, computeMro]
  split
  · rename_i root
    rw [root]
  · rename_i parent single
    rw [single, known parent (single ▸ mem_cons_self)]
    rfl
  · rename_i notRoot notSingle
    rw [mapM_subtype (fun _ _ => rfl), unattach_attach, mapM_ok known]
    split
    · exact (notRoot ‹_›).elim
    · exact (notSingle _ ‹_›).elim
    · rfl

theorem computeC3Mro_root (root : parents target = []) :
    computeC3Mro acyclic target = .ok [target] := by
  rw [computeC3Mro_eq (fun _ => []) (by rw [root]; nofun), computeMro, root]

theorem computeC3Mro_parents (returns : computeC3Mro acyclic target = .ok order) :
    ∀ parent ∈ parents target, ∃ mro, computeC3Mro acyclic parent = .ok mro := by
  rw [computeC3Mro] at returns
  split at returns
  · rename_i root
    rw [root]
    nofun
  · rename_i parent single
    rcases Except.map_eq_ok_iff.mp returns with ⟨mro, found, -⟩
    rw [single]
    intro other isParent
    rw [mem_singleton.mp isParent]
    exact ⟨mro, found⟩
  · rw [mapM_subtype (fun _ _ => rfl), unattach_attach] at returns
    rcases Except.bind_eq_ok_iff.mp returns with ⟨mros, found, -⟩
    exact mapM_stops found

variable (acyclic)

/-- What `compute_c3_mro` returns for a class, and nothing if it dies. -/
def mroAnew (target : C) : List C :=
  (computeC3Mro acyclic target).toOption.getD []

theorem mroAnew_known (known : ∀ parent ∈ parents target, ∃ mro,
      computeC3Mro acyclic parent = .ok mro) :
    ∀ parent ∈ parents target, computeC3Mro acyclic parent = .ok (mroAnew acyclic parent) := by
  intro parent isParent
  rcases known parent isParent with ⟨mro, found⟩
  rw [mroAnew, found]
  rfl

theorem computeC3Mro_ends (target : C) : (∃ order, computeC3Mro acyclic target = .ok order) ∨
      computeC3Mro acyclic target = .error ambiguousHierarchy := by
  induction target using acyclic.induction with
  | _ target ih =>
    rw [computeC3Mro]
    split
    · exact .inl ⟨_, rfl⟩
    · rename_i parent single
      rcases ih parent (single ▸ mem_cons_self) with ⟨mro, found⟩ | dies
      · exact .inl ⟨_, by rw [found]; rfl⟩
      · exact .inr (by rw [dies]; rfl)
    · rw [mapM_subtype (fun _ _ => rfl), unattach_attach]
      rcases mapM_ends ih with ⟨mros, found⟩ | dies
      · rw [found]
        rcases c3Merge_ends (mros ++ [parents target]) with ⟨merged, merges⟩ | dies
        · exact .inl ⟨target :: merged, congrArg (Except.map (target :: ·)) merges⟩
        · exact .inr (congrArg (Except.map (target :: ·)) dies)
      · exact .inr (by rw [dies]; rfl)

/-- An order of a class and exactly its ancestors, as C3 wants it. -/
def OrdersAncestors (target : C) (order : List C) : Prop :=
  Linearizes parents (mroAnew acyclic) target order ∧
    ∀ ancestor, ancestor ∈ order ↔ IsAncestor parents target ancestor

variable (distinct : ∀ target, (parents target).Nodup)

include distinct

theorem inheritance_of_orders (above : ∀ parent ∈ parents target,
      OrdersAncestors acyclic parent (mroAnew acyclic parent)) :
    Inheritance parents (mroAnew acyclic) target where
  distinct := distinct target
  starts parent isParent := (above parent isParent).1.starts
  nodup parent isParent := (above parent isParent).1.nodup
  acyclic parent isParent cyclic := by
    have loop : Relation.TransGen (fun parent child => parent ∈ parents child) target target :=
      (Relation.TransGen.head' isParent (((above parent isParent).2 target).mp cyclic)).swap
    exact acyclic.transGen.irrefl.irrefl target loop

theorem computeC3Mro_orders (returns : computeC3Mro acyclic target = .ok order) :
    OrdersAncestors acyclic target order := by
  induction target using acyclic.induction generalizing order with
  | _ target ih =>
    have known := mroAnew_known acyclic (computeC3Mro_parents returns)
    have above := fun parent isParent => ih parent isParent (known parent isParent)
    rw [computeC3Mro_eq _ known] at returns
    rcases computeMro_linearizes (inheritance_of_orders acyclic distinct above) with
      ⟨other, found, linearizes⟩ | ⟨dies, -⟩
    · rw [returns] at found
      cases found
      exact ⟨linearizes, linearizes.mem_iff_isAncestor fun parent isParent =>
        (above parent isParent).2⟩
    · rw [returns] at dies
      cases dies

theorem parrotComputeMroC3_eq (target : C) :
    parrotComputeMroC3 acyclic target = computeC3Mro acyclic target := by
  induction target using acyclic.induction with
  | _ target ih =>
    rw [parrotComputeMroC3]
    split
    · rename_i root
      exact (computeC3Mro_root root).symm
    rw [mapM_subtype (fun _ _ => rfl), unattach_attach]
    have ends := mapM_ends fun parent isParent =>
      (ih parent isParent).symm ▸ computeC3Mro_ends acyclic parent
    by_cases known : ∀ parent ∈ parents target, ∃ mro, computeC3Mro acyclic parent = .ok mro
    · have found := mroAnew_known acyclic known
      have inheritance := inheritance_of_orders acyclic distinct fun parent isParent =>
        computeC3Mro_orders acyclic distinct (found parent isParent)
      rw [computeC3Mro_eq _ found, computeMro_eq_merge inheritance,
        mapM_ok fun parent isParent => (ih parent isParent).trans (found parent isParent)]
      exact congrArg (Except.map (target :: ·)) (parrotC3Merge_eq inheritance.mergeList_nodup)
    -- A class with a parent that has no linearization has none.
    have dies := ends.resolve_left fun ⟨mros, found⟩ => known fun parent isParent => by
      rcases mapM_stops found parent isParent with ⟨mro, returns⟩
      exact ⟨mro, (ih parent isParent).symm.trans returns⟩
    rw [dies, (computeC3Mro_ends acyclic target).resolve_left fun ⟨_, returns⟩ =>
      known (computeC3Mro_parents returns)]
    rfl

/-- The three computations of a linearization agree: in a hierarchy without cycles they give
the same order of a class and exactly its ancestors, or die alike. -/
theorem linearizations_agree (target : C) :
    parrotComputeMroC3 acyclic target = computeC3Mro acyclic target ∧
    (computeC3Mro acyclic target = .error ambiguousHierarchy ∨ ∃ order,
      computeC3Mro acyclic target = .ok order ∧ OrdersAncestors acyclic target order) ∧
    (∀ mro, (∀ ancestor, IsAncestor parents target ancestor →
        computeMro parents mro ancestor = .ok (mro ancestor)) →
      computeC3Mro acyclic target = .ok (mro target)) ∧
    ∀ allParents, (parents target = [] → allParents target = [target]) →
      (∀ parent ∈ parents target, parrotComputeMroC3 acyclic parent = .ok (allParents parent)) →
      calculateMro acyclic allParents target = parrotComputeMroC3 acyclic target := by
  have same := parrotComputeMroC3_eq acyclic distinct
  refine ⟨same target, ?_, ?_, ?_⟩
  · rcases computeC3Mro_ends acyclic target with ⟨order, returns⟩ | dies
    · exact .inr ⟨order, returns, computeC3Mro_orders acyclic distinct returns⟩
    · exact .inl dies
  · intro mro stored
    induction target using acyclic.induction with
    | _ target ih =>
      rw [computeC3Mro_eq mro fun parent isParent => ih parent isParent fun ancestor isAncestor =>
        stored ancestor (.head isParent isAncestor)]
      exact stored target .refl
  intro allParents root stored
  rw [calculateMro]
  split
  · rename_i noParents
    rw [same, computeC3Mro_root noParents, root noParents]
  · rename_i parent single
    rw [same, computeC3Mro_eq allParents fun parent isParent =>
      (same parent).symm.trans (stored parent isParent), computeMro, single]
  · rfl

omit distinct

theorem diamond_acyclic : WellFounded fun parent child : Fin 4 => parent ∈ diamondParents child :=
  have below : ∀ child parent, parent ∈ diamondParents child → parent.val < child.val := by decide
  Subrelation.wf (fun {parent child} isParent => below child parent isParent) (measure Fin.val).wf

theorem linearizations_agree_diamond :
    parrotComputeMroC3 diamond_acyclic 3 = computeC3Mro diamond_acyclic 3 :=
  (linearizations_agree diamond_acyclic (by decide) 3).1

end RakudoStar.SixModel
