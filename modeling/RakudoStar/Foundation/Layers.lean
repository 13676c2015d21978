import Mathlib.Data.Fintype.EquivFin
import Mathlib.Order.WellFounded

/-!
# Sorting a finite relation into layers

A layer of the numbers below a bound holds what comes behind none of those that are left; taking
off layers sorts them, and stops short if and only if the relation has a cycle.
-/

namespace RakudoStar.Foundation

open List

variable (rel : Nat → Nat → Bool) (n : Nat)

/-- The number of entries left that come before an entry. -/
def pending (removed : Nat → Bool) (entry : Nat) : Nat :=
  (List.range n).countP fun other => rel other entry && !removed other

/-- The entries left that come behind none of those left. -/
def layer (removed : Nat → Bool) : List Nat :=
  (List.range n).filter fun entry => !removed entry && pending rel n removed entry == 0

def left (removed : Nat → Bool) : List Nat :=
  (List.range n).filter fun entry => !removed entry

/-- Take off a layer. -/
def withoutLayer (removed : Nat → Bool) (entries : List Nat) : Nat → Bool :=
  fun entry => removed entry || entries.contains entry

inductive Layers : (Nat → Bool) → List (List Nat) → Prop
  | done {removed : Nat → Bool} : left n removed = [] → Layers removed []
  | more {removed : Nat → Bool} {layers : List (List Nat)} : layer rel n removed ≠ [] →
      Layers (withoutLayer removed (layer rel n removed)) layers →
      Layers removed (layer rel n removed :: layers)

variable {rel n} {removed : Nat → Bool} {entry other : Nat}

theorem mem_left : entry ∈ left n removed ↔ entry < n ∧ removed entry = false := by
  simp [left]

theorem pending_eq_zero : pending rel n removed entry = 0 ↔
      ∀ other, other < n → rel other entry = true → removed other = true := by
  simp [pending, countP_eq_zero]

theorem mem_layer : entry ∈ layer rel n removed ↔ entry ∈ left n removed ∧
      ∀ other, other < n → rel other entry = true → removed other = true := by
  rw [mem_left, ← pending_eq_zero]
  simp [layer, and_assoc]

theorem mem_left_withoutLayer {entries : List Nat} : entry ∈ left n (withoutLayer removed entries) ↔
      entry ∈ left n removed ∧ entry ∉ entries := by
  simp [mem_left, withoutLayer, and_assoc]

theorem pending_remove (bound : entry < n) (isLeft : removed entry = false)
    (behind : Nat) : pending rel n removed behind =
      pending rel n (fun other => removed other || other == entry) behind +
        if rel entry behind then 1 else 0 := by
  have split : ∀ entries : List Nat, entries.Nodup →
      entries.countP (fun other => rel other behind && !removed other) =
        entries.countP (fun other => rel other behind && !(removed other || other == entry)) +
          if entry ∈ entries ∧ rel entry behind then 1 else 0 := by
    intro entries nodup
    induction entries with
    | nil => simp
    | cons other entries ih =>
      have rest := ih (nodup_cons.mp nodup).2
      rw [countP_cons, countP_cons, rest]
      by_cases same : other = entry
      · subst same
        have notLater := (nodup_cons.mp nodup).1
        simp [isLeft, notLater]
      have differ : entry ≠ other := fun equal => same equal.symm
      simp only [differ, Bool.or_false, mem_cons, false_or, beq_eq_false_iff_ne.mpr same]
      omega
  have whole := split (range n) nodup_range
  simp only [mem_range, bound, true_and] at whole
  exact whole

theorem left_nodup : (left n removed).Nodup :=
  nodup_range.filter _

theorem layer_nodup : (layer rel n removed).Nodup :=
  nodup_range.filter _

theorem layer_append_left_perm :
    (layer rel n removed ++ left n (withoutLayer removed (layer rel n removed))).Perm
      (left n removed) := by
  have nodup : (layer rel n removed ++
      left n (withoutLayer removed (layer rel n removed))).Nodup := by
    apply nodup_append.mpr
    refine ⟨layer_nodup, left_nodup, ?_⟩
    rintro entry inLayer other isLeft rfl
    exact (mem_left_withoutLayer.mp isLeft).2 inLayer
  apply (perm_ext_iff_of_nodup nodup left_nodup).mpr
  intro entry
  rw [mem_append, mem_left_withoutLayer]
  constructor
  · rintro (inLayer | ⟨isLeft, _⟩)
    · exact (mem_layer.mp inLayer).1
    · exact isLeft
  intro isLeft
  by_cases inLayer : entry ∈ layer rel n removed
  · exact .inl inLayer
  · exact .inr ⟨isLeft, inLayer⟩

namespace Layers

variable {layers : List (List Nat)}

theorem flatten_perm (sorted : Layers rel n removed layers) :
    layers.flatten.Perm (left n removed) := by
  induction sorted with
  | done empty => rw [empty]; exact List.Perm.refl _
  | more nonempty rest ih =>
    rw [flatten_cons]
    exact (ih.append_left _).trans layer_append_left_perm

theorem ne_nil (sorted : Layers rel n removed layers) : ∀ entries ∈ layers, entries ≠ [] := by
  induction sorted with
  | done => simp
  | more nonempty _ ih =>
    intro entries member
    rcases mem_cons.mp member with rfl | later
    · exact nonempty
    · exact ih entries later

theorem sublist_range (sorted : Layers rel n removed layers) :
    ∀ entries ∈ layers, entries.Sublist (range n) := by
  induction sorted with
  | done => simp
  | more _ _ ih =>
    intro entries member
    rcases mem_cons.mp member with rfl | later
    · exact filter_sublist
    · exact ih entries later

theorem mem_left_of_mem (sorted : Layers rel n removed layers) {entries : List Nat}
    (member : entries ∈ layers) (inEntries : entry ∈ entries) : entry ∈ left n removed :=
  sorted.flatten_perm.subset (mem_flatten.mpr ⟨entries, member, inEntries⟩)

/-- No entry comes before one of its own layer or of an earlier one. -/
theorem sorted (sorted : Layers rel n removed layers) :
    (∀ entries ∈ layers, ∀ entry ∈ entries, ∀ other ∈ entries, rel entry other = false) ∧
      layers.Pairwise fun earlier later =>
        ∀ entry ∈ later, ∀ other ∈ earlier, rel entry other = false := by
  induction sorted with
  | done => exact ⟨by simp, List.Pairwise.nil⟩
  | @more removed layers nonempty rest ih =>
    -- What is in the layer comes behind nothing that is left.
    have first : ∀ entry ∈ left n removed, ∀ other ∈ layer rel n removed,
        rel entry other = false := by
      intro entry isLeft other inLayer
      rw [Bool.eq_false_iff]
      intro before
      have gone := (mem_layer.mp inLayer).2 entry (mem_left.mp isLeft).1 before
      rw [(mem_left.mp isLeft).2] at gone
      cases gone
    constructor
    · intro entries member
      rcases mem_cons.mp member with rfl | later
      · intro entry inLayer
        exact first entry (mem_layer.mp inLayer).1
      · exact ih.1 entries later
    apply pairwise_cons.mpr
    apply And.intro _ ih.2
    intro later member entry inLater
    exact first entry (mem_left_withoutLayer.mp (rest.mem_left_of_mem member inLater)).1

end Layers

variable (rel n) in
/-- One entry comes before another. -/
def Before (entry other : Nat) : Prop :=
  entry < n ∧ other < n ∧ rel entry other = true

variable (rel n) in
/-- The relation has no cycle. -/
def Acyclic : Prop :=
  ∀ entry, ¬Relation.TransGen (Before rel n) entry entry

theorem Acyclic.layer_ne_nil (acyclic : Acyclic rel n) (isLeft : left n removed ≠ []) :
    layer rel n removed ≠ [] := by
  have wellFounded : WellFounded (fun earlier later : Fin n =>
      Relation.TransGen (Before rel n) earlier.val later.val) := by
    have : Std.Irrefl fun earlier later : Fin n =>
        Relation.TransGen (Before rel n) earlier.val later.val :=
      ⟨fun entry => acyclic entry.val⟩
    exact Finite.wellFounded_of_trans_of_irrefl _
  rcases exists_mem_of_ne_nil _ isLeft with ⟨entry, member⟩
  rcases mem_left.mp member with ⟨bound, notRemoved⟩
  rcases wellFounded.has_min {entry : Fin n | removed entry.val = false}
      ⟨⟨entry, bound⟩, notRemoved⟩ with ⟨first, firstLeft, least⟩
  apply ne_nil_of_mem (a := first.val)
  refine mem_layer.mpr ⟨mem_left.mpr ⟨first.isLt, firstLeft⟩, ?_⟩
  intro other otherBound before
  by_contra notGone
  exact least ⟨other, otherBound⟩ (by simpa using notGone)
    (.single ⟨otherBound, first.isLt, before⟩)

theorem exists_layers (acyclic : Acyclic rel n) (removed : Nat → Bool) :
    ∃ layers, Layers rel n removed layers := by
  generalize size : (left n removed).length = count
  induction count using Nat.strongRecOn generalizing removed with
  | _ count ih =>
    by_cases empty : left n removed = []
    · exact ⟨[], .done empty⟩
    have nonempty := acyclic.layer_ne_nil empty
    have parts := (@layer_append_left_perm rel n removed).length_eq
    rw [length_append, size] at parts
    have positive := length_pos_of_ne_nil nonempty
    have fewer : (left n (withoutLayer removed (layer rel n removed))).length < count := by
      omega
    rcases ih _ fewer _ rfl with ⟨layers, rest⟩
    exact ⟨_, .more nonempty rest⟩

/-- What comes before an entry of a layer is in an earlier layer, all the way. -/
theorem Layers.acyclic {layers : List (List Nat)}
    (sorted : Layers rel n (fun _ => false) layers) : Acyclic rel n := by
  -- The entries of a cycle are never in a layer, since one left keeps the next.
  have stays : ∀ (removed : Nat → Bool) (layers : List (List Nat)),
      Layers rel n removed layers → ∀ entry,
        Relation.TransGen (Before rel n) entry entry →
        (∀ other, Relation.TransGen (Before rel n) entry other →
          Relation.TransGen (Before rel n) other entry → removed other = false) → False := by
    intro removed layers sorted
    induction sorted with
    | @done removed empty =>
      intro entry cycle kept
      have bound : entry < n := by
        rcases Relation.TransGen.tail'_iff.mp cycle with ⟨_, _, step⟩
        exact step.2.1
      have isLeft : entry ∈ left n removed := mem_left.mpr ⟨bound, kept entry cycle cycle⟩
      rw [empty] at isLeft
      cases isLeft
    | @more removed layers nonempty rest ih =>
      intro entry cycle kept
      apply ih entry cycle
      intro other there back
      have notInLayer : other ∉ layer rel n removed := by
        intro inLayer
        -- The entry in front of it on the cycle is still left.
        rcases Relation.TransGen.tail'_iff.mp there with ⟨previous, path, step⟩
        have gone := (mem_layer.mp inLayer).2 previous step.1 step.2.2
        have keptPrevious : removed previous = false := by
          have backwards : Relation.TransGen (Before rel n) previous entry :=
            (Relation.TransGen.single step).trans back
          apply kept previous _ backwards
          exact (cycle.trans_left path)
        rw [keptPrevious] at gone
        cases gone
      simp [withoutLayer, kept other there back, notInLayer]
  intro entry cycle
  exact stays _ _ sorted entry cycle fun _ _ _ => rfl

end RakudoStar.Foundation
