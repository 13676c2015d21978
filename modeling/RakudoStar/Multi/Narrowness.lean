import RakudoStar.Multi.Candidate
import RakudoStar.SixModel.Diamond
import Mathlib.Data.List.Count
import Mathlib.Data.Nat.Find

/-!
# Narrowness of candidates

`is_narrower` counts how the first entries of two candidates compare. Over a partial order no
two candidates are narrower than each other, but longer cycles exist, as being tied is not
transitive.
-/

namespace RakudoStar

open List

namespace Interp

structure TypeOrder {Ty Val : Type} (interp : Interp Ty Val) : Prop extends
    interp.TypeLattice where
  antisymm : ∀ first second, interp.typeCheck first false second = true →
    interp.typeCheck second false first = true → first = second

end Interp

theorem Diamond.typeOrder : Diamond.interp.TypeOrder where
  toTypeLattice := Diamond.typeLattice
  antisymm first second := by cases first <;> cases second <;> decide

namespace Multi

variable {Ty Val Sub : Type} [DecidableEq Ty] {interp : Interp Ty Val}
  {a b c : CandidateInfo Ty Val Sub} {n : Nat}

section

variable {x y z : TypeSlot Ty Val}

/-- The comparison seen from the other side. -/
def Comparison.swap : Comparison → Comparison
  | .narrower => .wider
  | .tied => .tied
  | .wider => .narrower

theorem compareSlots_self : compareSlots interp x x = .tied := by
  unfold compareSlots
  rw [if_pos rfl]
  cases x.constraints <;> rfl

theorem compareSlots_swap (order : interp.TypeOrder) :
    compareSlots interp y x = (compareSlots interp x y).swap := by
  unfold compareSlots
  by_cases sameType : x.type = y.type
  · rw [if_pos sameType, if_pos sameType.symm]
    cases x.constraints <;> cases y.constraints <;> rfl
  rw [if_neg sameType, if_neg (Ne.symm sameType)]
  have oneWay : ¬(interp.typeCheck x.type false y.type = true ∧
      interp.typeCheck y.type false x.type = true) := by
    rintro ⟨below, above⟩
    exact sameType (order.antisymm _ _ below above)
  cases x.native <;> cases y.native <;>
    cases below : interp.typeCheck x.type false y.type <;>
    cases above : interp.typeCheck y.type false x.type <;>
    simp_all [Comparison.swap]

end

/-- How two candidates compare at a position where both have an entry. -/
def comparisonAt (interp : Interp Ty Val) (a b : CandidateInfo Ty Val Sub) (k : Nat) :
    Option Comparison :=
  match a.slots[k]?, b.slots[k]? with
  | some x, some y => some (compareSlots interp x y)
  | _, _ => none

/-- At each of the first positions a candidate is narrower or tied. -/
def BelowUpTo (interp : Interp Ty Val) (n : Nat) (a b : CandidateInfo Ty Val Sub) : Prop :=
  ∀ k < n, comparisonAt interp a b k = some .narrower ∨ comparisonAt interp a b k = some .tied

/-- At each of the first positions two candidates are tied. -/
def TiedUpTo (interp : Interp Ty Val) (n : Nat) (a b : CandidateInfo Ty Val Sub) : Prop :=
  ∀ k < n, comparisonAt interp a b k = some .tied

/-- At one of the first positions a candidate is narrower. -/
def NarrowerUpTo (interp : Interp Ty Val) (n : Nat) (a b : CandidateInfo Ty Val Sub) : Prop :=
  ∃ k < n, comparisonAt interp a b k = some .narrower

/-- The candidate takes any number of positional arguments. -/
def CandidateInfo.Slurpy (info : CandidateInfo Ty Val Sub) : Prop :=
  info.maxArity = slurpyArity

/-- The tie breaks: lack of slurpiness first, then need of a bind check. -/
def Preferred (a b : CandidateInfo Ty Val Sub) : Prop :=
  (¬a.Slurpy ∧ b.Slurpy) ∨ ((a.Slurpy ↔ b.Slurpy) ∧ a.bindCheck = true ∧ b.bindCheck = false)

omit [DecidableEq Ty] in
theorem Preferred.trans (first : Preferred a b) (second : Preferred b c) : Preferred a c := by
  rcases first with ⟨aFixed, bSlurpy⟩ | ⟨same, aChecked, bUnchecked⟩
  · rcases second with ⟨bFixed, _⟩ | ⟨same, _, _⟩
    · exact absurd bSlurpy bFixed
    · exact .inl ⟨aFixed, same.mp bSlurpy⟩
  rcases second with ⟨bFixed, cSlurpy⟩ | ⟨_, bChecked, _⟩
  · exact .inl ⟨mt same.mp bFixed, cSlurpy⟩
  · rw [bUnchecked] at bChecked
    cases bChecked

omit [DecidableEq Ty] in
theorem Preferred.irrefl : ¬Preferred a a := by
  rintro (⟨fixed, slurpy⟩ | ⟨_, checked, unchecked⟩)
  · exact fixed slurpy
  · rw [unchecked] at checked
    cases checked

/-- The array of comparisons that `is_narrower` counts through. -/
def comparisons (interp : Interp Ty Val) (a b : CandidateInfo Ty Val Sub) (n : Nat) :
    List Comparison :=
  ((a.slots.zip b.slots).take n).map fun (x, y) => compareSlots interp x y

theorem comparisons_getElem? {k : Nat} (within : k < n) :
    (comparisons interp a b n)[k]? = comparisonAt interp a b k := by
  unfold comparisons comparisonAt
  rw [getElem?_map, getElem?_take_of_lt within, zip, getElem?_zipWith]
  cases a.slots[k]? <;> cases b.slots[k]? <;> rfl

theorem comparisons_length : (comparisons interp a b n).length ≤ n := by
  unfold comparisons
  rw [length_map]
  exact length_take_le _ _

omit [DecidableEq Ty] in
theorem countP_eq_iff {α : Type} {test : α → Bool} {entries : List α} (size : entries.length ≤ n) :
    entries.countP test = n ↔ ∀ k < n, ∃ entry, entries[k]? = some entry ∧ test entry := by
  constructor
  · intro counted
    have most := @List.countP_le_length _ test entries
    have full : entries.length = n := by omega
    have allPass := countP_eq_length.mp (counted.trans full.symm)
    intro k within
    rw [← full] at within
    exact ⟨entries[k], getElem?_eq_getElem within, allPass _ (getElem_mem within)⟩
  intro pass
  have full : entries.length = n := by
    rcases lt_or_ge entries.length n with short | full
    · rcases pass entries.length short with ⟨_, present, _⟩
      simp at present
    · omega
  rw [← full]
  apply countP_eq_length.mpr
  intro entry member
  rcases mem_iff_getElem?.mp member with ⟨k, present⟩
  have within := (List.getElem?_eq_some_iff.mp present).1
  rcases pass k (full ▸ within) with ⟨other, alsoPresent, passes⟩
  cases present.symm.trans alsoPresent
  exact passes

omit [DecidableEq Ty] in
theorem count_narrower_add_tied (entries : List Comparison) :
    entries.count .narrower + entries.count .tied = entries.countP (· ≠ .wider) := by
  induction entries with
  | nil => rfl
  | cons entry entries ih =>
    rw [count_cons, count_cons, countP_cons, ← ih]
    cases entry <;> simp <;> omega

theorem belowUpTo_iff :
    (comparisons interp a b n).count .narrower + (comparisons interp a b n).count .tied = n ↔
      BelowUpTo interp n a b := by
  rw [count_narrower_add_tied, countP_eq_iff comparisons_length]
  apply forall₂_congr
  intro k within
  rw [comparisons_getElem? within]
  cases comparisonAt interp a b k with
  | none => simp
  | some compared => cases compared <;> simp

theorem tiedUpTo_iff : (comparisons interp a b n).count .tied = n ↔ TiedUpTo interp n a b := by
  rw [List.count, countP_eq_iff comparisons_length]
  apply forall₂_congr
  intro k within
  rw [comparisons_getElem? within]
  cases comparisonAt interp a b k with
  | none => simp
  | some compared => cases compared <;> simp

theorem narrowerUpTo_iff :
    (comparisons interp a b n).count .narrower ≥ 1 ↔ NarrowerUpTo interp n a b := by
  rw [ge_iff_le, Nat.one_le_iff_ne_zero, ← Nat.pos_iff_ne_zero, count_pos_iff, mem_iff_getElem?]
  constructor
  · rintro ⟨k, present⟩
    have within : k < n := by
      have := (List.getElem?_eq_some_iff.mp present).1
      exact Nat.lt_of_lt_of_le this comparisons_length
    exact ⟨k, within, (comparisons_getElem? within).symm.trans present⟩
  · rintro ⟨k, within, narrower⟩
    exact ⟨k, (comparisons_getElem? within).trans narrower⟩

theorem isNarrowerTypes_eq : isNarrowerTypes interp a b n =
      if (comparisons interp a b n).count .narrower ≥ 1 ∧
          (comparisons interp a b n).count .narrower + (comparisons interp a b n).count .tied = n
        then true else if (comparisons interp a b n).count .tied ≠ n then false
      else if a.maxArity ≠ slurpyArity ∧ b.maxArity = slurpyArity then true
      else !decide (b.maxArity ≠ slurpyArity ∧ a.maxArity = slurpyArity) &&
        (a.bindCheck && !b.bindCheck) :=
  rfl

theorem isNarrowerTypes_iff : isNarrowerTypes interp a b n = true ↔
      (NarrowerUpTo interp n a b ∧ BelowUpTo interp n a b) ∨
        (TiedUpTo interp n a b ∧ Preferred a b) := by
  rw [← narrowerUpTo_iff, ← belowUpTo_iff, ← tiedUpTo_iff] at *
  rw [isNarrowerTypes_eq]
  by_cases byTypes : (comparisons interp a b n).count .narrower ≥ 1 ∧
      (comparisons interp a b n).count .narrower + (comparisons interp a b n).count .tied = n
  · rw [if_pos byTypes]
    simp [byTypes]
  rw [if_neg byTypes]
  by_cases tied : (comparisons interp a b n).count .tied = n
  · rw [if_neg (not_not.mpr tied)]
    unfold Preferred CandidateInfo.Slurpy
    by_cases aSlurpy : a.maxArity = slurpyArity <;>
      by_cases bSlurpy : b.maxArity = slurpyArity <;>
      simp_all
  · rw [if_pos tied]
    simp only [byTypes, tied, false_and, or_self, Bool.false_eq_true]

theorem comparisonAt_swap (order : interp.TypeOrder) (k : Nat) :
    comparisonAt interp b a k = (comparisonAt interp a b k).map Comparison.swap := by
  unfold comparisonAt
  cases a.slots[k]? with
  | none => cases b.slots[k]? <;> rfl
  | some x =>
    cases b.slots[k]? with
    | none => rfl
    | some y => exact congrArg some (compareSlots_swap order)

theorem NarrowerUpTo.not_belowUpTo (order : interp.TypeOrder)
    (narrower : NarrowerUpTo interp n a b) :
    ¬BelowUpTo interp n b a := by
  rcases narrower with ⟨k, within, compared⟩
  intro below
  have wider := below k within
  rw [comparisonAt_swap order, compared] at wider
  simp [Comparison.swap] at wider

theorem TiedUpTo.belowUpTo (tied : TiedUpTo interp n a b) : BelowUpTo interp n a b :=
  fun k within => .inr (tied k within)

theorem isNarrowerTypes_asymm (order : interp.TypeOrder)
    (narrower : isNarrowerTypes interp a b n = true) : isNarrowerTypes interp b a n = false := by
  rw [Bool.eq_false_iff]
  intro back
  rw [isNarrowerTypes_iff] at narrower back
  rcases narrower with ⟨narrower, below⟩ | ⟨tied, preferred⟩
  · rcases back with ⟨_, backBelow⟩ | ⟨backTied, _⟩
    · exact narrower.not_belowUpTo order backBelow
    · exact narrower.not_belowUpTo order backTied.belowUpTo
  rcases back with ⟨backNarrower, _⟩ | ⟨_, backPreferred⟩
  · exact backNarrower.not_belowUpTo order tied.belowUpTo
  · exact (preferred.trans backPreferred).irrefl

theorem isNarrower_asymm (order : interp.TypeOrder) (narrower : isNarrower interp a b = true) :
    isNarrower interp b a = false := by
  unfold isNarrower at narrower ⊢
  by_cases sameTypes : a.numTypes = b.numTypes
  · rw [if_pos sameTypes] at narrower
    rw [if_pos sameTypes.symm, ← sameTypes]
    exact isNarrowerTypes_asymm order narrower
  rw [if_neg sameTypes] at narrower
  rw [if_neg (Ne.symm sameTypes)]
  by_cases sameArity : a.minArity = b.minArity
  · rw [if_pos sameArity] at narrower
    rw [if_pos sameArity.symm, min_comm]
    exact isNarrowerTypes_asymm order narrower
  rw [if_neg sameArity] at narrower
  rw [if_neg (Ne.symm sameArity)]
  simp_all

theorem isNarrowerTypes_self : isNarrowerTypes interp a a n = false := by
  rw [Bool.eq_false_iff, Ne, isNarrowerTypes_iff]
  rintro (⟨⟨k, _, narrower⟩, _⟩ | ⟨_, preferred⟩)
  · unfold comparisonAt at narrower
    cases present : a.slots[k]? <;> simp [present, compareSlots_self] at narrower
  · exact preferred.irrefl

theorem isNarrower_self : isNarrower interp a a = false := by
  unfold isNarrower
  rw [if_pos rfl, isNarrowerTypes_self]

/-- One candidate of a list is narrower than another. -/
def NarrowerOf (interp : Interp Ty Val) (infos : List (CandidateInfo Ty Val Sub))
    (a b : CandidateInfo Ty Val Sub) : Prop :=
  a ∈ infos ∧ b ∈ infos ∧ isNarrower interp a b = true

/-- Some candidates of a list are narrower than each other all round. -/
def Circular (interp : Interp Ty Val) (infos : List (CandidateInfo Ty Val Sub)) : Prop :=
  ∃ info, Relation.TransGen (NarrowerOf interp infos) info info

/-- At each position being narrower or tied is transitive. -/
def WeaklyOrdered (interp : Interp Ty Val) (infos : List (CandidateInfo Ty Val Sub)) : Prop :=
  ∀ a ∈ infos, ∀ b ∈ infos, ∀ c ∈ infos, ∀ (k : Nat) (x y z : TypeSlot Ty Val),
    a.slots[k]? = some x → b.slots[k]? = some y → c.slots[k]? = some z →
      compareSlots interp x y ≠ .wider → compareSlots interp y z ≠ .wider →
        compareSlots interp x z ≠ .wider

section

variable {infos : List (CandidateInfo Ty Val Sub)} {k : Nat}

omit [DecidableEq Ty] in
theorem comparisonAt_eq_some_iff [DecidableEq Ty] {compared : Comparison} :
    comparisonAt interp a b k = some compared ↔
      ∃ x y, a.slots[k]? = some x ∧ b.slots[k]? = some y ∧ compareSlots interp x y = compared := by
  unfold comparisonAt
  cases a.slots[k]? <;> cases b.slots[k]? <;> simp

/-- The three ways to compare are those of a weak order at each position. -/
theorem WeaklyOrdered.compose (ordered : WeaklyOrdered interp infos) (order : interp.TypeOrder)
    (aMember : a ∈ infos) (bMember : b ∈ infos) (cMember : c ∈ infos) {x y z : TypeSlot Ty Val}
    (first : a.slots[k]? = some x) (second : b.slots[k]? = some y) (third : c.slots[k]? = some z)
    (below : compareSlots interp x y ≠ .wider) (next : compareSlots interp y z ≠ .wider) :
    compareSlots interp x z =
      if compareSlots interp x y = .tied ∧ compareSlots interp y z = .tied then .tied
      else .narrower := by
  have composed := ordered a aMember b bMember c cMember k x y z first second third below next
  cases whole : compareSlots interp x z with
  | wider => exact absurd whole composed
  | narrower =>
    rw [if_neg]
    rintro ⟨firstTied, nextTied⟩
    -- Ties compose from the other side as well.
    have back := ordered c cMember b bMember a aMember k z y x third second first
    rw [compareSlots_swap (x := y) (y := z) order, compareSlots_swap (x := x) (y := y) order,
      compareSlots_swap (x := x) (y := z) order, firstTied, nextTied, whole] at back
    simp [Comparison.swap] at back
  | tied =>
    have left := ordered b bMember c cMember a aMember k y z x second third first next
    have right := ordered c cMember a aMember b bMember k z x y third first second
    rw [compareSlots_swap (x := x) (y := z) order, whole,
      compareSlots_swap (x := x) (y := y) order] at left
    rw [compareSlots_swap (x := x) (y := z) order, whole,
      compareSlots_swap (x := y) (y := z) order] at right
    rw [if_pos]
    cases firstCompared : compareSlots interp x y <;>
      cases nextCompared : compareSlots interp y z <;>
      simp_all [Comparison.swap]

/-- Being narrower or tied at a position composes, and is strict if a part is. -/
theorem WeaklyOrdered.comparisonAt_compose (ordered : WeaklyOrdered interp infos)
    (order : interp.TypeOrder) (aMember : a ∈ infos) (bMember : b ∈ infos) (cMember : c ∈ infos)
    {first next : Comparison} (compared : comparisonAt interp a b k = some first)
    (nextCompared : comparisonAt interp b c k = some next) (below : first ≠ .wider)
    (nextBelow : next ≠ .wider) : comparisonAt interp a c k =
      some (if first = .tied ∧ next = .tied then .tied else .narrower) := by
  rcases comparisonAt_eq_some_iff.mp compared with ⟨x, y, aSlot, bSlot, rfl⟩
  rcases comparisonAt_eq_some_iff.mp nextCompared with ⟨y', z, bSlot', cSlot, rfl⟩
  cases bSlot.symm.trans bSlot'
  exact comparisonAt_eq_some_iff.mpr ⟨x, z, aSlot, cSlot,
    ordered.compose order aMember bMember cMember aSlot bSlot cSlot below nextBelow⟩

theorem BelowUpTo.exists_compared (below : BelowUpTo interp n a b) (within : k < n) :
    ∃ compared, comparisonAt interp a b k = some compared ∧ compared ≠ .wider := by
  rcases below k within with narrower | tied
  · exact ⟨_, narrower, by simp⟩
  · exact ⟨_, tied, by simp⟩

section

variable (ordered : WeaklyOrdered interp infos)

include ordered

theorem WeaklyOrdered.belowUpTo_trans
    (order : interp.TypeOrder) (aMember : a ∈ infos) (bMember : b ∈ infos) (cMember : c ∈ infos)
    (below : BelowUpTo interp n a b) (next : BelowUpTo interp n b c) : BelowUpTo interp n a c := by
  intro k within
  rcases below.exists_compared within with ⟨first, compared, notWider⟩
  rcases next.exists_compared within with ⟨second, nextCompared, nextNotWider⟩
  rw [ordered.comparisonAt_compose order aMember bMember cMember compared nextCompared notWider
    nextNotWider]
  split
  · exact .inr rfl
  · exact .inl rfl

theorem WeaklyOrdered.narrowerUpTo_trans
    (order : interp.TypeOrder) (aMember : a ∈ infos) (bMember : b ∈ infos) (cMember : c ∈ infos)
    (below : BelowUpTo interp n a b) (next : BelowUpTo interp n b c)
    (strict : NarrowerUpTo interp n a b ∨ NarrowerUpTo interp n b c) :
    NarrowerUpTo interp n a c := by
  rcases strict with ⟨k, within, compared⟩ | ⟨k, within, compared⟩
  · rcases next.exists_compared within with ⟨second, nextCompared, notWider⟩
    refine ⟨k, within, ?_⟩
    rw [ordered.comparisonAt_compose order aMember bMember cMember compared nextCompared (by simp)
      notWider, if_neg (by simp)]
  rcases below.exists_compared within with ⟨first, firstCompared, notWider⟩
  refine ⟨k, within, ?_⟩
  rw [ordered.comparisonAt_compose order aMember bMember cMember firstCompared compared notWider
    (by simp), if_neg (by simp)]

theorem WeaklyOrdered.tiedUpTo_trans
    (order : interp.TypeOrder) (aMember : a ∈ infos) (bMember : b ∈ infos) (cMember : c ∈ infos)
    (tied : TiedUpTo interp n a b) (next : TiedUpTo interp n b c) : TiedUpTo interp n a c := by
  intro k within
  rw [ordered.comparisonAt_compose order aMember bMember cMember (tied k within) (next k within)
    (by simp) (by simp)]
  rfl

end

omit [DecidableEq Ty] in
theorem transGen_members [DecidableEq Ty]
    (path : Relation.TransGen (NarrowerOf interp infos) a b) : a ∈ infos ∧ b ∈ infos := by
  induction path with
  | single step => exact ⟨step.1, step.2.1⟩
  | tail _ step ih => exact ⟨ih.1, step.2.1⟩

theorem not_narrowerUpTo_self : ¬NarrowerUpTo interp n a a := by
  rintro ⟨k, _, narrower⟩
  rcases comparisonAt_eq_some_iff.mp narrower with ⟨x, y, first, second, compared⟩
  cases first.symm.trans second
  rw [compareSlots_self] at compared
  cases compared

/-- A path of narrower candidates has narrower types, or tied ones and a tie break. -/
theorem WeaklyOrdered.path_sameTypes (ordered : WeaklyOrdered interp infos)
    (order : interp.TypeOrder) (sameTypes : ∀ info ∈ infos, info.numTypes = n)
    (path : Relation.TransGen (NarrowerOf interp infos) a b) :
    (NarrowerUpTo interp n a b ∧ BelowUpTo interp n a b) ∨
      (TiedUpTo interp n a b ∧ Preferred a b) := by
  have single : ∀ {a b}, NarrowerOf interp infos a b →
      (NarrowerUpTo interp n a b ∧ BelowUpTo interp n a b) ∨
        (TiedUpTo interp n a b ∧ Preferred a b) := by
    rintro a b ⟨aMember, bMember, narrower⟩
    rw [isNarrower, sameTypes a aMember, sameTypes b bMember, if_pos rfl] at narrower
    exact isNarrowerTypes_iff.mp narrower
  induction path with
  | single step => exact single step
  | tail path step ih =>
    rcases transGen_members path with ⟨aMember, bMember⟩
    have cMember := step.2.1
    have trans := @belowUpTo_trans _ _ _ _ interp _ _ _ n _ ordered order aMember bMember cMember
    have strict := @narrowerUpTo_trans _ _ _ _ interp _ _ _ n _ ordered order aMember bMember
      cMember
    rcases ih with ⟨narrower, below⟩ | ⟨tied, preferred⟩
    · rcases single step with ⟨_, next⟩ | ⟨next, _⟩
      · exact .inl ⟨strict below next (.inl narrower), trans below next⟩
      · exact .inl ⟨strict below next.belowUpTo (.inl narrower), trans below next.belowUpTo⟩
    rcases single step with ⟨narrower, next⟩ | ⟨next, nextPreferred⟩
    · exact .inl ⟨strict tied.belowUpTo next (.inr narrower), trans tied.belowUpTo next⟩
    · exact .inr ⟨ordered.tiedUpTo_trans order aMember bMember cMember tied next,
        preferred.trans nextPreferred⟩

/-- The tie breaks do not tell two candidates of a list apart. -/
def SameTieBreaks (infos : List (CandidateInfo Ty Val Sub)) : Prop :=
  ∀ a ∈ infos, ∀ b ∈ infos, (a.Slurpy ↔ b.Slurpy) ∧ a.bindCheck = b.bindCheck

theorem narrowerUpTo_of_narrowerOf (same : SameTieBreaks infos)
    (narrower : NarrowerOf interp infos a b) : NarrowerUpTo interp (min a.numTypes b.numTypes) a b ∧
      BelowUpTo interp (min a.numTypes b.numTypes) a b := by
  rcases narrower with ⟨aMember, bMember, narrower⟩
  rcases same a aMember b bMember with ⟨sameSlurpy, sameCheck⟩
  have notPreferred : ¬Preferred a b := by
    rintro (⟨aFixed, bSlurpy⟩ | ⟨_, aChecked, bUnchecked⟩)
    · exact aFixed (sameSlurpy.mpr bSlurpy)
    · rw [sameCheck, bUnchecked] at aChecked
      cases aChecked
  have byTypes : isNarrowerTypes interp a b (min a.numTypes b.numTypes) = true := by
    unfold isNarrower at narrower
    split at narrower
    case isTrue sameTypes => rwa [← sameTypes, min_self]
    case isFalse =>
      split at narrower
      · exact narrower
      · rw [decide_eq_true_eq] at narrower
        exact absurd (sameSlurpy.mpr narrower.2) narrower.1
  rcases isNarrowerTypes_iff.mp byTypes with decided | ⟨_, preferred⟩
  · exact decided
  · exact absurd preferred notPreferred

theorem WeaklyOrdered.path_fewestTypes (ordered : WeaklyOrdered interp infos)
    (order : interp.TypeOrder) (same : SameTieBreaks infos)
    (fewest : ∀ other, Relation.TransGen (NarrowerOf interp infos) a other →
      Relation.TransGen (NarrowerOf interp infos) other a → a.numTypes ≤ other.numTypes)
    (path : Relation.TransGen (NarrowerOf interp infos) a b)
    (back : Relation.TransGen (NarrowerOf interp infos) b a) :
    NarrowerUpTo interp a.numTypes a b ∧ BelowUpTo interp a.numTypes a b := by
  induction path with
  | @single b step =>
    have compared := narrowerUpTo_of_narrowerOf same step
    rw [min_eq_left (fewest b (.single step) back)] at compared
    exact compared
  | @tail b c path step ih =>
    have bBack := Relation.TransGen.head step back
    rcases ih bBack with ⟨narrower, below⟩
    rcases transGen_members path with ⟨aMember, bMember⟩
    have enough : a.numTypes ≤ min b.numTypes c.numTypes :=
      le_min (fewest b path bBack) (fewest c (path.tail step) back)
    have next : BelowUpTo interp a.numTypes b c := fun k within =>
      (narrowerUpTo_of_narrowerOf same step).2 k (lt_of_lt_of_le within enough)
    exact ⟨ordered.narrowerUpTo_trans order aMember bMember step.2.1 below next (.inl narrower),
      ordered.belowUpTo_trans order aMember bMember step.2.1 below next⟩

/-- Weakly ordered candidates with equally many types have no cycle. -/
theorem WeaklyOrdered.not_circular (ordered : WeaklyOrdered interp infos) (order : interp.TypeOrder)
    (uniform : (∃ n, ∀ info ∈ infos, info.numTypes = n) ∨ SameTieBreaks infos) :
    ¬Circular interp infos := by
  rintro ⟨info, cycle⟩
  rcases uniform with ⟨n, sameTypes⟩ | same
  · rcases ordered.path_sameTypes order sameTypes cycle with ⟨narrower, _⟩ | ⟨_, preferred⟩
    · exact not_narrowerUpTo_self narrower
    · exact preferred.irrefl
  -- Start the cycle at a candidate with the fewest types.
  classical
  have some : ∃ n info, Relation.TransGen (NarrowerOf interp infos) info info ∧
      info.numTypes = n := ⟨_, info, cycle, rfl⟩
  rcases Nat.find_spec some with ⟨first, firstCycle, isFewest⟩
  have fewest : ∀ other, Relation.TransGen (NarrowerOf interp infos) first other →
      Relation.TransGen (NarrowerOf interp infos) other first →
        first.numTypes ≤ other.numTypes := by
    intro other there back
    rw [isFewest]
    exact Nat.find_min' some ⟨other, back.trans there, rfl⟩
  exact not_narrowerUpTo_self (ordered.path_fewestTypes order same fewest firstCycle firstCycle).1

/-- Two entries are of comparable types, and of one type only when both or
neither are native. -/
def Comparable (interp : Interp Ty Val) (x y : TypeSlot Ty Val) : Prop :=
  (interp.IsSubtype x.type y.type ∨ interp.IsSubtype y.type x.type) ∧
    (x.type = y.type → x.native.isSome = y.native.isSome)

theorem Comparable.not_wider_iff {x y : TypeSlot Ty Val} (comparable : Comparable interp x y) :
    compareSlots interp x y ≠ .wider ↔
      if x.type = y.type then y.constraints.isSome → x.constraints.isSome
      else if x.native.isSome = y.native.isSome then interp.IsSubtype x.type y.type
      else x.native.isSome := by
  rcases comparable with ⟨chain, natives⟩
  unfold compareSlots Interp.IsSubtype at *
  split
  · cases x.constraints <;> cases y.constraints <;> simp
  · cases x.native <;> cases y.native <;>
      cases below : interp.typeCheck x.type false y.type <;> simp_all

theorem weaklyOrdered_of_chain (order : interp.TypeOrder)
    (chain : ∀ a ∈ infos, ∀ b ∈ infos, ∀ (k : Nat) (x y : TypeSlot Ty Val),
      a.slots[k]? = some x → b.slots[k]? = some y → Comparable interp x y) :
    WeaklyOrdered interp infos := by
  intro a aMember b bMember c cMember k x y z first second third below next
  have xy := chain a aMember b bMember k x y first second
  have yz := chain b bMember c cMember k y z second third
  have xz := chain a aMember c cMember k x z first third
  rw [xy.not_wider_iff] at below
  rw [yz.not_wider_iff] at next
  rw [xz.not_wider_iff]
  have trans := order.trans x.type y.type z.type
  have antisymm := order.antisymm x.type y.type
  unfold Comparable at xy yz xz
  unfold Interp.IsSubtype at *
  by_cases sameFirst : x.type = y.type <;> by_cases sameNext : y.type = z.type <;> grind
end

end Multi

end RakudoStar
