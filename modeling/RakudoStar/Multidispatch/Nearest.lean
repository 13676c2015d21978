import Mathlib.Data.List.Forall2
import RakudoStar.Multidispatch.Distance

/-!
# The nearest candidate

The candidate that is selected: an admissible one of least distance, unless a base type or the
limit of the distances decides otherwise.
-/

namespace RakudoStar.Multidispatch

open List Option

variable {call sig sig' : Int}

section

variable {classes : Classes} {cls d : Nat}

/-- What the boxing of a native argument adds. -/
def Classes.boxing (classes : Classes) (call : Int) : Nat :=
  if classes.autobox call = none then 0 else 1

theorem weigh_self (classes : Classes) (call : Int) : classes.weigh call call = some 0 := by
  rw [Classes.weigh, if_pos rfl]

theorem weigh_box (boxes : classes.autobox call = some cls) : classes.weigh cls call = some 1 := by
  have native := (autobox_cases boxes).1
  rw [Classes.weigh, if_neg (by omega), boxes]
  exact if_pos rfl

theorem weigh_any (other : call ≠ anyPmc) : classes.weigh anyPmc call = some (classes.boxing call +
      if 0 < classes.boxed call then (classes.mro (classes.boxed call)).length + 1 else 1) := by
  rw [Classes.weigh, if_neg other.symm]
  cases boxes : classes.autobox call with
  | none =>
    rw [Classes.boxing, if_pos boxes, boxed_of_class boxes, Nat.zero_add]
    change classes.weighPmc anyPmc call = _
    by_cases called : 0 < call
    · rw [if_pos called, weighPmc_any called]
    · rw [if_neg called, weighPmc_any_native (Int.not_lt.mp called)]
  | some cls =>
    obtain ⟨boxed, positive⟩ := boxed_of_native boxes
    have negative := anyPmc_neg
    rw [Classes.boxing, boxes, if_neg (some_ne_none cls), boxed, if_pos positive]
    change (if anyPmc = (cls : Int) then _ else _) = _
    rw [if_neg (by omega), if_pos (.inl rfl), weighPmc_any positive]
    rfl

theorem weigh_class (positive : 0 < sig) (other : sig ≠ classes.boxed call) :
    classes.weigh sig call =
      if 0 < classes.boxed call ∧ (classes.autobox call ≠ none → sig < classes.coreMax) ∧
          classes.stopsAt (classes.boxed call) sig < (classes.mro (classes.boxed call)).length then
        some (classes.boxing call + (classes.stopsAt (classes.boxed call) sig + 1)) else none := by
  have negative := anyPmc_neg
  cases boxes : classes.autobox call with
  | none =>
    rw [boxed_of_class boxes] at other ⊢
    rw [Classes.weigh, if_neg other, boxes, Classes.boxing, if_pos boxes, Nat.zero_add]
    change classes.weighPmc sig call = _
    by_cases called : 0 < call
    · rw [weighPmc_class called positive]
      apply if_congr _ rfl rfl
      constructor
      · exact fun found => ⟨called, fun native => absurd rfl native, found⟩
      · exact fun all => all.2.2
    · rw [weighPmc_nonpos (fun any => by omega) (Or.inr (Int.not_lt.mp called)),
        if_neg fun all => called all.1]
  | some cls =>
    obtain ⟨boxed, called⟩ := boxed_of_native boxes
    have native := (autobox_cases boxes).1
    rw [boxed] at other ⊢
    rw [Classes.weigh, if_neg (by omega), boxes, Classes.boxing, boxes, if_neg (some_ne_none cls)]
    change (if sig = (cls : Int) then _ else _) = _
    rw [if_neg other]
    by_cases core : sig < classes.coreMax
    · rw [if_pos (Or.inr ⟨Int.le_of_lt positive, core⟩), weighPmc_class called positive]
      by_cases found : classes.stopsAt cls sig < (classes.mro cls).length
      · rw [if_pos found, if_pos ⟨called, fun _ => core, found⟩]
        rfl
      · rw [if_neg found, if_neg fun all => found all.2.2]
        rfl
    · rw [if_neg (by omega), weighPmc_nonpos (fun any => by omega) (Or.inr (Int.le_of_lt native)),
        if_neg fun all => core (all.2.1 (some_ne_none cls))]

theorem weigh_native (nonpos : sig ≤ 0) (other : sig ≠ anyPmc) (differ : sig ≠ call) :
    classes.weigh sig call = none := by
  rw [Classes.weigh, if_neg differ]
  cases boxes : classes.autobox call with
  | none => exact weighPmc_nonpos other (.inl nonpos)
  | some cls =>
    have positive := (boxed_of_native boxes).2
    change (if sig = (cls : Int) then _ else _) = _
    rw [if_neg (by omega)]
    split
    · rw [weighPmc_nonpos other (.inl nonpos)]
      rfl
    · exact weighPmc_nonpos other (.inl nonpos)

theorem fits_box (boxes : classes.autobox call = some cls) : classes.Fits call cls :=
  .inr (.inr (.inl ⟨cls, boxes, rfl⟩))

theorem Classes.Inherits.core (inherits : classes.Inherits call sig)
    (native : classes.autobox call ≠ none) : sig < classes.coreMax := by
  obtain ⟨cls, boxes⟩ := ne_none_iff_exists'.mp native
  obtain ⟨-, -, cl, member, rfl⟩ := inherits
  rw [(boxed_of_native boxes).1] at member
  exact Int.ofNat_lt.mpr (classes.boxes_core cls (autobox_cases boxes).2.2 cl member)

/-- What a position adds, and whether it ends the loop, depends on what fits. -/
theorem weigh_isSome_iff :
    (classes.weigh sig call).isSome ↔ classes.Fits call sig ∨ classes.BaseTypeOnly call sig := by
  by_cases same : sig = call
  · rw [same, weigh_self]
    exact ⟨fun _ => .inl (.inl rfl), fun _ => rfl⟩
  by_cases any : sig = anyPmc
  · rw [any, weigh_any fun other => same (any.trans other.symm)]
    exact ⟨fun _ => .inl (.inr (.inl rfl)), fun _ => rfl⟩
  by_cases positive : 0 < sig
  · by_cases box : sig = classes.boxed call
    · cases boxes : classes.autobox call with
      | none => exact absurd (box.trans (boxed_of_class boxes)) same
      | some cls =>
        rw [box, (boxed_of_native boxes).1, weigh_box boxes]
        exact ⟨fun _ => .inl (fits_box boxes), fun _ => rfl⟩
    rw [weigh_class positive box]
    constructor
    · intro accepted
      split at accepted
      · next all =>
          obtain ⟨called, core, found⟩ := all
          obtain ⟨cl, member, stops⟩ := stopsAt_lt_iff.mp found
          by_cases fits : classes.Fits call sig
          · exact .inl fits
          rcases stops with base | type
          · exact .inr ⟨fits, called, positive, core, cl, member, base⟩
          · exact absurd (.inr (.inr (.inr ⟨called, positive, cl, member, type⟩))) fits
      · cases accepted
    rintro (fits | ⟨-, called, -, core, cl, member, base⟩)
    · rcases fits with equal | any' | ⟨cls, boxes, equal⟩ | inherits
      · exact absurd equal same
      · exact absurd any' any
      · exact absurd (equal.trans (boxed_of_native boxes).1.symm) box
      have core := inherits.core
      obtain ⟨called, -, cl, member, type⟩ := inherits
      rw [if_pos ⟨called, core, stopsAt_lt_iff.mpr ⟨cl, member, .inr type⟩⟩]
      rfl
    · rw [if_pos ⟨called, core, stopsAt_lt_iff.mpr ⟨cl, member, .inl base⟩⟩]
      rfl
  · rw [weigh_native (Int.not_lt.mp positive) any same]
    constructor
    · exact fun accepted => absurd accepted Bool.false_ne_true
    rintro (fits | ⟨-, -, positive', -⟩)
    · rcases fits with equal | any' | ⟨cls, boxes, equal⟩ | inherits
      · exact absurd equal same
      · exact absurd any' any
      · exact absurd (equal ▸ (boxed_of_native boxes).2) positive
      · exact absurd inherits.2.1 positive
    · exact absurd positive' positive

/-- The index of the first class object of the type. -/
def Classes.occursAt (classes : Classes) (cls sig : Int) : Nat :=
  (classes.mro cls).findIdx fun cl => (cl.type : Int) = sig

/-- Where a type fits: exact match, boxed class, MRO, and any PMC last. -/
def Classes.place (classes : Classes) (call sig : Int) : Option Nat :=
  let cls := classes.boxed call
  if sig = call then some 0
  else if sig = cls then some 1
  else if sig = anyPmc then some ((classes.mro cls).length + 2)
  else if 0 < cls ∧ 0 < sig ∧ classes.occursAt cls sig < (classes.mro cls).length then
    some (classes.occursAt cls sig + 2)
  else none

/-- Of two types in the MRO, the search stops earlier for the one that occurs earlier. -/
def Classes.InOrder (classes : Classes) (call : Int) : Prop :=
  let cls := classes.boxed call
  0 < cls → ∀ sig sig', 0 < sig → 0 < sig' → sig ≠ cls → sig' ≠ cls →
    classes.occursAt cls sig < classes.occursAt cls sig' →
    classes.occursAt cls sig' < (classes.mro cls).length →
    classes.stopsAt cls sig < classes.stopsAt cls sig'

theorem occursAt_lt_iff {cls : Int} : classes.occursAt cls sig < (classes.mro cls).length ↔
      ∃ cl ∈ classes.mro cls, (cl.type : Int) = sig := by
  rw [Classes.occursAt, findIdx_lt_length]
  simp only [decide_eq_true_eq]

theorem stopsAt_le_occursAt (cls sig : Int) :
    classes.stopsAt cls sig ≤ classes.occursAt cls sig := by
  rw [Classes.stopsAt, Classes.occursAt]
  induction classes.mro cls with
  | nil => exact Nat.le_refl _
  | cons cl rest ih =>
    rw [findIdx_cons, findIdx_cons]
    by_cases type : (cl.type : Int) = sig
    · simp [ClassObject.stops, type]
    by_cases base : (cl.baseType : Int) = sig
    · simp [ClassObject.stops, base]
    · simpa [ClassObject.stops, type, base] using ih

/-- A type in its place, with what it adds to the distance. -/
inductive Classes.Placed (classes : Classes) (call : Int) : Int → Nat → Nat → Prop
  | same : classes.Placed call call 0 0
  | boxed (cls : Nat) : classes.autobox call = some cls → classes.Placed call cls 1 1
  | any : call ≠ anyPmc → classes.Placed call anyPmc
      ((classes.mro (classes.boxed call)).length + 2)
      (classes.boxing call +
        if 0 < classes.boxed call then (classes.mro (classes.boxed call)).length + 1 else 1)
  | inherits (sig : Int) : 0 < classes.boxed call → 0 < sig → sig ≠ classes.boxed call →
      classes.occursAt (classes.boxed call) sig < (classes.mro (classes.boxed call)).length →
      classes.Placed call sig (classes.occursAt (classes.boxed call) sig + 2)
        (classes.boxing call + (classes.stopsAt (classes.boxed call) sig + 1))

theorem ne_call (positive : 0 < sig) (other : sig ≠ classes.boxed call) : sig ≠ call := by
  rintro rfl
  cases boxes : classes.autobox sig with
  | none => exact other (boxed_of_class boxes).symm
  | some cls =>
    have native := (autobox_cases boxes).1
    omega

theorem Classes.Placed.place {place : Nat} (placed : classes.Placed call sig place d) :
    classes.place call sig = some place := by
  have negative := anyPmc_neg
  cases placed with
  | same => exact if_pos rfl
  | boxed cls boxes =>
    have native := (autobox_cases boxes).1
    rw [Classes.place]
    exact (if_neg (by omega)).trans (if_pos (boxed_of_native boxes).1.symm)
  | any other =>
    have differ : anyPmc ≠ classes.boxed call := by
      cases boxes : classes.autobox call with
      | none => exact fun same => other (same.trans (boxed_of_class boxes)).symm
      | some cls =>
        have positive := (boxed_of_native boxes).2
        rw [(boxed_of_native boxes).1]
        omega
    rw [Classes.place]
    exact (if_neg other.symm).trans ((if_neg differ).trans (if_pos rfl))
  | inherits _ called positive differ occurs =>
    rw [Classes.place]
    exact (if_neg (ne_call positive differ)).trans ((if_neg differ).trans
      ((if_neg (by omega)).trans (if_pos ⟨called, positive, occurs⟩)))

theorem Classes.Placed.weigh {place : Nat} (placed : classes.Placed call sig place d) :
    classes.weigh sig call = some d := by
  cases placed with
  | same => exact weigh_self classes call
  | boxed cls boxes => exact weigh_box boxes
  | any other => exact weigh_any other
  | inherits _ called positive differ occurs =>
    have inherits : classes.Inherits call sig := ⟨called, positive, occursAt_lt_iff.mp occurs⟩
    rw [weigh_class positive differ]
    exact if_pos ⟨called, inherits.core, Nat.lt_of_le_of_lt (stopsAt_le_occursAt _ _) occurs⟩

theorem exists_placed {place : Nat} (some_ : classes.place call sig = some place) :
    ∃ d, classes.Placed call sig place d := by
  by_cases same : sig = call
  · subst same
    cases (if_pos rfl : classes.place sig sig = some 0).symm.trans some_
    exact ⟨0, .same⟩
  by_cases box : sig = classes.boxed call
  · cases boxes : classes.autobox call with
    | none => exact absurd (box.trans (boxed_of_class boxes)) same
    | some cls =>
      rw [box, (boxed_of_native boxes).1] at some_ ⊢
      have placed := Classes.Placed.boxed cls boxes
      cases placed.place.symm.trans some_
      exact ⟨1, placed⟩
  by_cases any : sig = anyPmc
  · subst any
    have placed := @Classes.Placed.any classes call fun other => same other.symm
    cases placed.place.symm.trans some_
    exact ⟨_, placed⟩
  rw [Classes.place] at some_
  change (if sig = call then _ else if sig = classes.boxed call then _ else
    if sig = anyPmc then _ else _) = _ at some_
  rw [if_neg same, if_neg box, if_neg any] at some_
  split at some_
  · next all =>
      cases some_
      exact ⟨_, .inherits sig all.1 all.2.1 box all.2.2⟩
  · cases some_

theorem Classes.Placed.injective {place place' d' : Nat}
    (one : classes.Placed call sig place d) (two : classes.Placed call sig' place' d')
    (same : place = place') : sig = sig' := by
  cases one with
  | same =>
    cases two with
    | same => rfl
    | _ => omega
  | boxed cls boxes =>
    cases two with
    | boxed cls' boxes' => rw [some.inj (boxes.symm.trans boxes')]
    | _ => omega
  | any other =>
    cases two with
    | any _ => rfl
    | _ => omega
  | inherits _ called positive differ occurs =>
    cases two with
    | inherits _ called' positive' differ' occurs' =>
      have index : classes.occursAt (classes.boxed call) sig =
          classes.occursAt (classes.boxed call) sig' := by omega
      have first := @findIdx_getElem _ _ _ occurs
      have second := @findIdx_getElem _ _ _ occurs'
      rw [decide_eq_true_eq] at first second
      rw [← first, ← second]
      simp only [Classes.occursAt] at index
      simp only [index]
      rfl
    | _ => omega

theorem place_injective {place : Nat} (one : classes.place call sig = some place)
    (two : classes.place call sig' = some place) : sig = sig' := by
  obtain ⟨d, placed⟩ := exists_placed one
  obtain ⟨d', placed'⟩ := exists_placed two
  exact placed.injective placed' rfl

/-- Earlier places add less exactly if the types in the MRO are found in order. -/
theorem weigh_lt_iff : (∀ sig sig' place place' d d', classes.place call sig = some place →
      classes.place call sig' = some place' → place < place' → classes.weigh sig call = some d →
      classes.weigh sig' call = some d' → d < d') ↔ classes.InOrder call := by
  constructor
  · intro less called sig sig' positive positive' differ differ' earlier occurs'
    have one := Classes.Placed.inherits sig called positive differ (by omega)
    have two := Classes.Placed.inherits sig' called positive' differ' occurs'
    have lighter := less _ _ _ _ _ _ one.place two.place (by omega) one.weigh two.weigh
    omega
  intro ordered sig sig' place place' d d' one two less weight weight'
  obtain ⟨e, one⟩ := exists_placed one
  obtain ⟨e', two⟩ := exists_placed two
  cases weight.symm.trans one.weigh
  cases weight'.symm.trans two.weigh
  have boxing : ∀ cls, classes.autobox call = some cls →
      classes.boxing call = 1 ∧ 0 < classes.boxed call := by
    intro cls boxes
    rw [Classes.boxing, boxes, (boxed_of_native boxes).1]
    exact ⟨rfl, (boxed_of_native boxes).2⟩
  cases one with
  | same =>
    cases two with
    | same => omega
    | boxed cls boxes => omega
    | any other => split <;> omega
    | inherits _ called positive differ occurs => omega
  | boxed cls boxes =>
    obtain ⟨native, called⟩ := boxing cls boxes
    cases two with
    | any other =>
      rw [if_pos called]
      omega
    | _ => omega
  | any other =>
    cases two with
    | inherits _ called positive differ occurs => omega
    | _ => omega
  | inherits _ called positive differ occurs =>
    have stops := @stopsAt_le_occursAt classes (classes.boxed call) sig
    cases two with
    | any other =>
      rw [if_pos called]
      omega
    | inherits _ called' positive' differ' occurs' =>
      have found := ordered called sig sig' positive positive' differ differ' (by omega) occurs'
      omega
    | _ => omega

end

section

variable (classes : Classes)

/-- The candidate is admissible: it has no more types than there are arguments, and all of them
fit. -/
def Classes.Admissible (args : List Int) : Signature → Prop
  | .notMulti => True
  | .unknown => False
  | .types sigs => List.Forall₂ classes.Fits (args.take sigs.length) sigs

/-- Every type fits or is a base type in the MRO, but the candidate is not admissible. -/
def Classes.SlipsIn (args : List Int) (candidate : Signature) : Prop :=
  ¬classes.Admissible args candidate ∧ ∃ sigs, candidate = .types sigs ∧
    List.Forall₂ (fun call sig => classes.Fits call sig ∨ classes.BaseTypeOnly call sig)
      (args.take sigs.length) sigs

/-- What all positions add. -/
def Classes.weights : List Int → List Int → Option Nat
  | [], _ => some 0
  | _ :: _, [] => none
  | sig :: sigs, call :: calls =>
    (classes.weigh sig call).bind fun d =>
      (Classes.weights sigs calls).map fun rest => d + rest

/-- The distance of a candidate, if every type fits or is the base type of a class object. -/
def Classes.reach (args : List Int) : Signature → Option Nat
  | .notMulti => some 0
  | .unknown => none
  | .types sigs => (classes.weights sigs args).map fun d =>
    (if sigs.length < args.length then maxClassDepth else 0) + d

/-- A signature is nowhere later than another one. -/
inductive Classes.NotLater : List Int → List Int → List Int → Prop
  | nil (args : List Int) : Classes.NotLater args [] []
  | cons {call sig sig' : Int} {place place' : Nat} {args sigs sigs' : List Int} :
      classes.place call sig = some place → classes.place call sig' = some place' →
      place ≤ place' → Classes.NotLater args sigs sigs' →
      Classes.NotLater (call :: args) (sig :: sigs) (sig' :: sigs')

/-- A signature is nowhere later than another one of the same length and earlier somewhere. -/
inductive Classes.Earlier : List Int → List Int → List Int → Prop
  | here {call sig sig' : Int} {place place' : Nat} {args sigs sigs' : List Int} :
      classes.place call sig = some place → classes.place call sig' = some place' →
      place < place' → classes.NotLater args sigs sigs' →
      Classes.Earlier (call :: args) (sig :: sigs) (sig' :: sigs')
  | later {call sig sig' : Int} {place place' : Nat} {args sigs sigs' : List Int} :
      classes.place call sig = some place → classes.place call sig' = some place' →
      place ≤ place' → Classes.Earlier args sigs sigs' →
      Classes.Earlier (call :: args) (sig :: sigs) (sig' :: sigs')

variable {classes} {sigs args sigs' : List Int} {place place' d : Nat}

theorem weights_isSome_iff : (classes.weights sigs args).isSome ↔
    List.Forall₂ (fun call sig => classes.Fits call sig ∨ classes.BaseTypeOnly call sig)
      (args.take sigs.length) sigs := by
  induction sigs generalizing args with
  | nil =>
    rw [Classes.weights, length_nil, take_zero]
    exact ⟨fun _ => .nil, fun _ => rfl⟩
  | cons sig sigs ih =>
    cases args with
    | nil =>
      rw [Classes.weights, take_nil]
      constructor
      · exact fun none => absurd none Bool.false_ne_true
      · exact fun all => nomatch all
    | cons call args =>
      rw [Classes.weights, length_cons, take_succ_cons, forall₂_cons, ← weigh_isSome_iff, ← ih]
      cases classes.weigh sig call with
      | none => exact ⟨fun none => absurd none Bool.false_ne_true, fun both => both.1⟩
      | some d =>
        rw [bind_some, isSome_map]
        exact ⟨fun rest => ⟨rfl, rest⟩, fun both => both.2⟩

theorem distanceLoop_eq (enough : sigs.length ≤ args.length) (dist : Nat) :
    classes.distanceLoop sigs args dist =
      ((classes.weights sigs args).map fun d => dist + d).getD bigDistance := by
  induction sigs generalizing args dist with
  | nil =>
    rw [Classes.weights]
    rfl
  | cons sig sigs ih =>
    cases args with
    | nil => exact absurd enough (Nat.not_succ_le_zero _)
    | cons call args =>
      rw [Classes.distanceLoop, Classes.weights]
      cases classes.weigh sig call with
      | none => rfl
      | some d =>
        change classes.distanceLoop sigs args (dist + d) = _
        rw [ih (Nat.le_of_succ_le_succ enough), Option.bind_some, Option.map_map]
        congr 2
        funext rest
        exact Nat.add_assoc dist d rest

theorem weights_short (short : args.length < sigs.length) : classes.weights sigs args = none := by
  induction sigs generalizing args with
  | nil => exact absurd short (Nat.not_lt_zero _)
  | cons sig sigs ih =>
    cases args with
    | nil => rfl
    | cons call args =>
      rw [Classes.weights, ih (Nat.lt_of_succ_lt_succ short)]
      cases classes.weigh sig call with
      | none => rfl
      | some d => rfl

theorem mmdDistance_eq (args : List Int) (candidate : Signature) :
    classes.mmdDistance args candidate = (classes.reach args candidate).getD bigDistance := by
  cases candidate with
  | notMulti => rfl
  | unknown => rfl
  | types sigs =>
    rw [Classes.mmdDistance, Classes.reach]
    split
    · next short => rw [weights_short short, map_none, getD_none]
    · next enough => exact distanceLoop_eq (Nat.not_lt.mp enough) _

theorem reach_isSome_iff {candidate : Signature} : (classes.reach args candidate).isSome ↔
      classes.Admissible args candidate ∨ classes.SlipsIn args candidate := by
  cases candidate with
  | notMulti => exact ⟨fun _ => .inl trivial, fun _ => rfl⟩
  | unknown =>
    constructor
    · exact fun none => absurd none Bool.false_ne_true
    rintro (impossible | ⟨-, sigs, other, -⟩)
    · exact impossible.elim
    · cases other
  | types sigs =>
    rw [Classes.reach, isSome_map, weights_isSome_iff]
    constructor
    · intro accepted
      by_cases admissible : classes.Admissible args (.types sigs)
      · exact .inl admissible
      · exact .inr ⟨admissible, sigs, rfl, accepted⟩
    rintro (admissible | ⟨-, sigs', same, accepted⟩)
    · exact List.Forall₂.imp (fun _ _ fits => .inl fits) admissible
    · cases same
      exact accepted

theorem weigh_of_place
    (placed : classes.place call sig = some place) : ∃ d, classes.weigh sig call = some d := by
  obtain ⟨d, placed⟩ := exists_placed placed
  exact ⟨d, placed.weigh⟩

theorem weights_cons {rest : Nat}
    (weight : classes.weigh sig call = some d) (sum : classes.weights sigs args = some rest) :
    classes.weights (sig :: sigs) (call :: args) = some (d + rest) := by
  rw [Classes.weights, weight, sum]
  rfl

theorem weigh_le (ordered : classes.InOrder call)
    (one : classes.place call sig = some place) (two : classes.place call sig' = some place')
    (le : place ≤ place') : ∃ d d', classes.weigh sig call = some d ∧
      classes.weigh sig' call = some d' ∧ d ≤ d' ∧ (place < place' → d < d') := by
  obtain ⟨d, weight⟩ := weigh_of_place one
  obtain ⟨d', weight'⟩ := weigh_of_place two
  have less : place < place' → d < d' := fun earlier =>
    weigh_lt_iff.mpr ordered _ _ _ _ _ _ one two earlier weight weight'
  refine ⟨d, d', weight, weight', ?_, less⟩
  rcases Nat.lt_or_eq_of_le le with earlier | same
  · exact Nat.le_of_lt (less earlier)
  · cases place_injective (same ▸ one) two
    exact Nat.le_of_eq (Option.some.inj (weight.symm.trans weight'))

theorem Classes.NotLater.weights
    (notLater : classes.NotLater args sigs sigs') (ordered : ∀ call ∈ args, classes.InOrder call) :
    sigs.length = sigs'.length ∧ ∃ d d', classes.weights sigs args = some d ∧
      classes.weights sigs' args = some d' ∧ d ≤ d' := by
  induction notLater with
  | nil args => exact ⟨rfl, 0, 0, rfl, rfl, Nat.le_refl 0⟩
  | @cons call sig sig' place place' args sigs sigs' one two le _ ih =>
    obtain ⟨lengths, d, d', sum, sum', less⟩ := ih (forall_mem_cons.mp ordered).2
    obtain ⟨e, e', weight, weight', first, -⟩ := weigh_le (ordered call mem_cons_self) one two le
    exact ⟨congrArg Nat.succ lengths, e + d, e' + d', weights_cons weight sum,
      weights_cons weight' sum', Nat.add_le_add first less⟩

theorem Classes.Earlier.weights
    (earlier : classes.Earlier args sigs sigs') (ordered : ∀ call ∈ args, classes.InOrder call) :
    sigs.length = sigs'.length ∧ ∃ d d', classes.weights sigs args = some d ∧
      classes.weights sigs' args = some d' ∧ d < d' := by
  induction earlier with
  | @here call sig sig' place place' args sigs sigs' one two lt notLater =>
    obtain ⟨lengths, d, d', sum, sum', le⟩ := notLater.weights (forall_mem_cons.mp ordered).2
    obtain ⟨e, e', weight, weight', -, first⟩ :=
      weigh_le (ordered call mem_cons_self) one two (Nat.le_of_lt lt)
    exact ⟨congrArg Nat.succ lengths, e + d, e' + d', weights_cons weight sum,
      weights_cons weight' sum', Nat.add_lt_add_of_lt_of_le (first lt) le⟩
  | @later call sig sig' place place' args sigs sigs' one two le _ ih =>
    obtain ⟨lengths, d, d', sum, sum', less⟩ := ih (forall_mem_cons.mp ordered).2
    obtain ⟨e, e', weight, weight', first, -⟩ := weigh_le (ordered call mem_cons_self) one two le
    exact ⟨congrArg Nat.succ lengths, e + d, e' + d', weights_cons weight sum,
      weights_cons weight' sum', Nat.add_lt_add_of_le_of_lt first less⟩

theorem mmdDistance_types
    (sum : classes.weights sigs args = some d) : classes.mmdDistance args (.types sigs) =
      (if sigs.length < args.length then maxClassDepth else 0) + d := by
  rw [mmdDistance_eq, Classes.reach, sum]
  rfl

theorem weights_own (front back : List Int) (call sig : Int) :
    classes.weights (front ++ [sig]) (front ++ call :: back) = classes.weigh sig call := by
  induction front with
  | nil =>
    rw [nil_append, nil_append, Classes.weights]
    cases classes.weigh sig call with
    | none => rfl
    | some d => rfl
  | cons own front ih =>
    rw [cons_append, cons_append, Classes.weights, weigh_self, bind_some, ih]
    cases classes.weigh sig call with
    | none => rfl
    | some d => exact congrArg some (Nat.zero_add d)

theorem place_self (classes : Classes) (call : Int) : classes.place call call = some 0 := if_pos rfl

theorem earlier_own {front back : List Int}
    (one : classes.place call sig = some place) (two : classes.place call sig' = some place')
    (lt : place < place') :
    classes.Earlier (front ++ call :: back) (front ++ [sig]) (front ++ [sig']) := by
  induction front with
  | nil => exact .here one two lt (.nil back)
  | cons own front ih =>
    exact .later (place_self classes own) (place_self classes own) (Nat.le_refl 0) ih

theorem mmdDistance_lt_iff (args : List Int) : (∀ sigs sigs', classes.Earlier args sigs sigs' →
      classes.mmdDistance args (.types sigs) < classes.mmdDistance args (.types sigs')) ↔
      ∀ call ∈ args, classes.InOrder call := by
  constructor
  · intro nearer call member
    apply weigh_lt_iff.mp
    intro sig sig' place place' d d' one two lt weight weight'
    obtain ⟨front, back, rfl⟩ := append_of_mem member
    have less := nearer _ _ (earlier_own one two lt)
    have lengths : (front ++ [sig]).length = (front ++ [sig']).length := by
      rw [length_append, length_append]
      rfl
    rw [mmdDistance_types ((weights_own front back call sig).trans weight),
      mmdDistance_types ((weights_own front back call sig').trans weight'), lengths] at less
    exact Nat.lt_of_add_lt_add_left less
  intro ordered sigs sigs' earlier
  obtain ⟨lengths, d, d', sum, sum', less⟩ := earlier.weights ordered
  rw [mmdDistance_types sum, mmdDistance_types sum', lengths]
  exact Nat.add_lt_add_left less _

end

section

variable {Sub : Type} (classes : Classes) (signature : Sub → Signature) (args : List Int)
  (cl : List Sub)

/-- None is admissible, or the first of least distance is selected. -/
def Classes.FirstNearest (result : Option Sub) : Prop :=
  (result = none ↔ ∀ pmc ∈ cl, ¬classes.Admissible args (signature pmc)) ∧
    ∀ best, result = some best → classes.Admissible args (signature best) ∧
      ∃ before after, cl = before ++ best :: after ∧
        (∀ pmc ∈ before, classes.Admissible args (signature pmc) →
          classes.mmdDistance args (signature best) < classes.mmdDistance args (signature pmc)) ∧
        ∀ pmc ∈ after, classes.Admissible args (signature pmc) →
          classes.mmdDistance args (signature best) ≤ classes.mmdDistance args (signature pmc)

/-- If there is an admissible candidate, one is nearer than the big distance. -/
def Classes.WithinLimit : Prop :=
  (∃ pmc ∈ cl, classes.Admissible args (signature pmc)) →
    ∃ pmc ∈ cl, classes.Admissible args (signature pmc) ∧
      ∃ d, classes.reach args (signature pmc) = some d ∧ d < bigDistance

/-- A candidate that slips in is farther than an admissible one, or as far and behind it. -/
def Classes.NoneSlips : Prop :=
  ∀ before pmc after, cl = before ++ pmc :: after → classes.SlipsIn args (signature pmc) →
    ∀ d, classes.reach args (signature pmc) = some d → d < bigDistance →
      (∃ other ∈ before, classes.Admissible args (signature other) ∧
        ∃ e, classes.reach args (signature other) = some e ∧ e ≤ d) ∨
      ∃ other ∈ after, classes.Admissible args (signature other) ∧
        ∃ e, classes.reach args (signature other) = some e ∧ e < d

variable {classes signature args cl} {candidate : Signature}

/-- The first of least distance is selected, if it is nearer than the best so far. -/
theorem sortLoop_spec (best : Option Sub) (bestDistance : Nat) :
    ((∀ pmc ∈ cl, bestDistance ≤ classes.mmdDistance args (signature pmc)) ∧
        classes.sortLoop signature args cl best bestDistance = best) ∨
      ∃ before pmc after, cl = before ++ pmc :: after ∧
        classes.sortLoop signature args cl best bestDistance = some pmc ∧
        classes.mmdDistance args (signature pmc) < bestDistance ∧
        (∀ other ∈ before, classes.mmdDistance args (signature pmc) <
          classes.mmdDistance args (signature other)) ∧
        ∀ other ∈ after, classes.mmdDistance args (signature pmc) ≤
          classes.mmdDistance args (signature other) := by
  induction cl generalizing best bestDistance with
  | nil => exact .inl ⟨nofun, rfl⟩
  | cons pmc cl ih =>
    rw [Classes.sortLoop]
    by_cases nearer : classes.mmdDistance args (signature pmc) < bestDistance
    · rw [if_pos nearer]
      rcases ih (some pmc) (classes.mmdDistance args (signature pmc)) with
        ⟨farther, result⟩ | ⟨before, later, after, rfl, result, less, first, rest⟩
      · refine .inr ⟨[], pmc, cl, rfl, result, nearer, ?_, farther⟩
        exact nofun
      · refine Or.inr ⟨pmc :: before, later, after, rfl, result, Nat.lt_trans less nearer, ?_, rest⟩
        exact forall_mem_cons.mpr ⟨less, first⟩
    rw [if_neg nearer]
    rcases ih best bestDistance with
      ⟨farther, result⟩ | ⟨before, later, after, rfl, result, less, first, rest⟩
    · exact Or.inl ⟨forall_mem_cons.mpr ⟨Nat.not_lt.mp nearer, farther⟩, result⟩
    · refine Or.inr ⟨pmc :: before, later, after, rfl, result, less, ?_, rest⟩
      exact forall_mem_cons.mpr ⟨Nat.lt_of_lt_of_le less (Nat.not_lt.mp nearer), first⟩

theorem mmdDistance_of_reach {d : Nat}
    (reach : classes.reach args candidate = some d) : classes.mmdDistance args candidate = d := by
  rw [mmdDistance_eq, reach]
  rfl

theorem reach_of_lt (less : classes.mmdDistance args candidate < bigDistance) :
    classes.reach args candidate = some (classes.mmdDistance args candidate) := by
  rw [mmdDistance_eq] at less ⊢
  cases reach : classes.reach args candidate with
  | none => exact absurd (reach ▸ less) (Nat.lt_irrefl _)
  | some d => rfl

/-- A selected candidate keeps all other candidates that slip in at bay. -/
theorem FirstNearest.noneSlips {before after : List Sub} {pmc : Sub}
    (whole : cl = before ++ pmc :: after) (admissible : classes.Admissible args (signature pmc))
    (near : classes.mmdDistance args (signature pmc) < bigDistance)
    (first : ∀ other ∈ before, classes.mmdDistance args (signature pmc) <
      classes.mmdDistance args (signature other))
    (rest : ∀ other ∈ after, classes.mmdDistance args (signature pmc) ≤
      classes.mmdDistance args (signature other)) : classes.NoneSlips signature args cl := by
  intro before' slipping after' whole' slips d reach _
  have distance := mmdDistance_of_reach reach
  have own := reach_of_lt near
  rw [whole] at whole'
  rcases append_eq_append_iff.mp whole' with ⟨between, rfl, tail⟩ | ⟨between, rfl, tail⟩
  · cases between with
    | nil =>
      cases tail
      exact absurd admissible slips.1
    | cons head between =>
      cases tail
      refine .inl ⟨pmc, mem_append_right _ mem_cons_self, admissible, _, own, ?_⟩
      rw [← distance]
      exact rest slipping (mem_append_right _ mem_cons_self)
  cases between with
  | nil =>
    cases tail
    exact absurd admissible slips.1
  | cons head between =>
    cases tail
    refine .inr ⟨pmc, mem_append_right _ mem_cons_self, admissible, _, own, ?_⟩
    rw [← distance]
    exact first slipping (mem_append_right _ mem_cons_self)

/-- The nearest is selected exactly if it is nearer than the big distance and none slips in. -/
theorem firstNearest_iff :
    classes.FirstNearest signature args cl (classes.sortCandidates signature args cl) ↔
      classes.WithinLimit signature args cl ∧ classes.NoneSlips signature args cl := by
  rcases @sortLoop_spec Sub classes signature args cl none bigDistance with
    ⟨farther, result⟩ | ⟨before, pmc, after, whole, result, near, first, rest⟩
  · rw [Classes.sortCandidates, result]
    constructor
    · rintro ⟨none_, -⟩
      constructor
      · rintro ⟨pmc, member, admissible⟩
        exact absurd admissible (none_.mp rfl pmc member)
      rintro before pmc after rfl slips d reach near
      have far := farther pmc (mem_append_right _ mem_cons_self)
      rw [mmdDistance_of_reach reach] at far
      exact absurd near (Nat.not_lt.mpr far)
    rintro ⟨within, -⟩
    refine ⟨⟨fun _ pmc member admissible => ?_, fun _ => rfl⟩, fun _ other => nomatch other⟩
    obtain ⟨near, member, -, d, reach, less⟩ := within ⟨pmc, member, admissible⟩
    have far := farther near member
    rw [mmdDistance_of_reach reach] at far
    exact absurd less (Nat.not_lt.mpr far)
  · rw [Classes.sortCandidates, result]
    have member : pmc ∈ cl := whole ▸ mem_append_right _ mem_cons_self
    have reach := reach_of_lt near
    constructor
    · rintro ⟨-, selected⟩
      have admissible := (selected pmc rfl).1
      exact ⟨fun _ => ⟨pmc, member, admissible, _, reach, near⟩,
        FirstNearest.noneSlips whole admissible near first rest⟩
    rintro ⟨-, noneSlips⟩
    have admissible : classes.Admissible args (signature pmc) := by
      rcases reach_isSome_iff.mp (isSome_of_mem reach) with admissible | slips
      · exact admissible
      rcases noneSlips before pmc after whole slips _ reach near with
        ⟨other, earlier, -, e, reach', less⟩ | ⟨other, later, -, e, reach', less⟩
      · have nearer := first other earlier
        rw [mmdDistance_of_reach reach'] at nearer
        exact absurd nearer (Nat.not_lt.mpr less)
      have nearer := rest other later
      rw [mmdDistance_of_reach reach'] at nearer
      exact absurd less (Nat.not_lt.mpr nearer)
    have noNone : (some pmc : Option Sub) = none ↔
        ∀ other ∈ cl, ¬classes.Admissible args (signature other) := by
      constructor
      · nofun
      · intro none_
        exact absurd admissible (none_ pmc member)
    refine ⟨noNone, ?_⟩
    rintro best ⟨⟩
    exact ⟨admissible, before, after, whole, fun other member _ => first other member,
      fun other member _ => rest other member⟩

/-- `Parrot_mmd_sort_candidates` selects the first admissible candidate of least distance exactly
if one is nearer than the big distance and none slips in by a base type; a signature that is
earlier in the MRO of the arguments is nearer exactly if the types of every MRO are found in
order. -/
theorem sortCandidates_exact_iff (classes : Classes) (signature : Sub → Signature)
    (args : List Int) (cl : List Sub) :
    (classes.FirstNearest signature args cl (classes.sortCandidates signature args cl) ↔
        classes.WithinLimit signature args cl ∧ classes.NoneSlips signature args cl) ∧
      ((∀ sigs sigs', classes.Earlier args sigs sigs' →
        classes.mmdDistance args (.types sigs) < classes.mmdDistance args (.types sigs')) ↔
        ∀ call ∈ args, classes.InOrder call) :=
  ⟨firstNearest_iff, mmdDistance_lt_iff args⟩

end

/-- The classes `Integer`, `Float`, `String` and `Class`, and a class 5 written by a user. -/
def userClass : Classes where
  integer := 1
  float := 2
  string := 3
  coreMax := 5
  mro call := if call = 5 then [⟨4, 5⟩] else [⟨call.toNat, call.toNat⟩]
  boxes_pos := by decide
  boxes_core := by decide

/-- A candidate for `Class` is selected for an object of any class that a user has written. -/
theorem sortCandidates_takes_class :
    userClass.sortCandidates id [5] [.types [4]] = some (.types [4]) ∧
      ¬userClass.FirstNearest id [5] [.types [4]]
        (userClass.sortCandidates id [5] [.types [4]]) := by
  have selected : userClass.sortCandidates id [5] [.types [4]] = some (.types [4]) := rfl
  refine ⟨selected, ?_⟩
  rw [selected]
  rintro ⟨-, nearest⟩
  have fits : userClass.Fits 5 4 := by
    cases (nearest _ rfl).1 with
    | cons first _ => exact first
  rcases fits with same | any | ⟨cls, boxes, -⟩ | ⟨-, -, cl, member, type⟩
  · exact absurd same (by decide)
  · exact absurd any (by decide)
  · cases boxes
  · cases mem_singleton.mp member
    exact absurd type (by decide)

end RakudoStar.Multidispatch
