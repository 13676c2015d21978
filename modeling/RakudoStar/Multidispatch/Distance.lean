import Mathlib.Data.List.Basic

/-!
# Manhattan distance dispatch

`mmd_distance` and `Parrot_mmd_sort_candidates`. A type is the number of a class, or the negated
number of a native type.
-/

namespace RakudoStar.Multidispatch

open List

def intval : Int := -1

def floatval : Int := -2

def stringType : Int := -3

/-- `-enum_type_PMC`, which any PMC matches. -/
def anyPmc : Int := -4

def bigDistance : Nat := 0x7fff

def maxClassDepth : Nat := 1000

/-- An MRO element, with the base type of its vtable and its class. -/
structure ClassObject where
  baseType : Nat
  type : Nat

/-- The core classes of boxed natives, and the MRO in every vtable. -/
structure Classes where
  integer : Nat
  float : Nat
  string : Nat
  coreMax : Nat
  mro : Int → List ClassObject
  boxes_pos : ∀ cls ∈ [integer, float, string], 0 < cls
  boxes_core : ∀ cls ∈ [integer, float, string], ∀ cl ∈ mro cls, cl.type < coreMax

/-- `multi_signature`: none at all, one that the types cannot be found of, or a tuple of types. -/
inductive Signature where
  | notMulti
  | unknown
  | types (sigs : List Int)

section

variable (classes : Classes)

/-- The class that `switch (type_call)` boxes a native argument to. -/
def Classes.autobox (call : Int) : Option Nat :=
  if call = intval then some classes.integer
  else if call = floatval then some classes.float
  else if call = stringType then some classes.string
  else none

def ClassObject.stops (cl : ClassObject) (sig : Int) : Bool :=
  (cl.baseType : Int) = sig ∨ (cl.type : Int) = sig

/-- The index at which the search in the MRO ends, its length if it finds nothing. -/
def Classes.stopsAt (call sig : Int) : Nat :=
  (classes.mro call).findIdx fun cl => cl.stops sig

/-- The distance that the search in the MRO adds, if it does not break with the big distance. -/
def Classes.weighPmc (sig call : Int) : Option Nat :=
  if call ≤ 0 ∧ sig = anyPmc then some 1
  else if (sig ≤ 0 ∧ sig ≠ anyPmc) ∨ call ≤ 0 then none
  else if classes.stopsAt call sig = (classes.mro call).length ∧ sig ≠ anyPmc then none
  else some (classes.stopsAt call sig + 1)

/-- The distance that the body of the loop of `mmd_distance` adds. -/
def Classes.weigh (sig call : Int) : Option Nat :=
  if sig = call then some 0
  else
    match classes.autobox call with
    | none => classes.weighPmc sig call
    | some cls =>
      if sig = cls then some 1
      else if sig = anyPmc ∨ (0 ≤ sig ∧ sig < classes.coreMax) then
        (classes.weighPmc sig cls).map fun d => 1 + d
      else classes.weighPmc sig call

/-- The loop of `mmd_distance`. -/
def Classes.distanceLoop : List Int → List Int → Nat → Nat
  | sig :: sigs, call :: calls, dist =>
    match classes.weigh sig call with
    | none => bigDistance
    | some d => Classes.distanceLoop sigs calls (dist + d)
  | _, _, dist => dist

def Classes.mmdDistance (args : List Int) : Signature → Nat
  | .notMulti => 0
  | .unknown => bigDistance
  | .types sigs =>
    if args.length < sigs.length then bigDistance
    else classes.distanceLoop sigs args (if sigs.length < args.length then maxClassDepth else 0)

variable {Sub : Type} (signature : Sub → Signature)

/-- The loop of `Parrot_mmd_sort_candidates`. -/
def Classes.sortLoop (args : List Int) : List Sub → Option Sub → Nat → Option Sub
  | [], best, _ => best
  | pmc :: cl, best, bestDistance =>
    let d := classes.mmdDistance args (signature pmc)
    if d < bestDistance then Classes.sortLoop args cl (some pmc) d
    else Classes.sortLoop args cl best bestDistance

def Classes.sortCandidates (args : List Int) (cl : List Sub) : Option Sub :=
  classes.sortLoop signature args cl none bigDistance

end

section

variable (classes : Classes)

/-- The class whose MRO is searched for an argument, the one that it is boxed to for a native. -/
def Classes.boxed (call : Int) : Int :=
  ((classes.autobox call).map fun cls => (cls : Int)).getD call

/-- The signature type occurs in the MRO of the class of the argument. -/
def Classes.Inherits (call sig : Int) : Prop :=
  0 < classes.boxed call ∧ 0 < sig ∧ ∃ cl ∈ classes.mro (classes.boxed call), (cl.type : Int) = sig

/-- The signature type fits the argument. -/
def Classes.Fits (call sig : Int) : Prop :=
  sig = call ∨ sig = anyPmc ∨ (∃ cls : Nat, classes.autobox call = some cls ∧ sig = cls) ∨
    classes.Inherits call sig

/-- The signature type is the base type of a class object in the MRO. -/
def Classes.BaseTypeOnly (call sig : Int) : Prop :=
  ¬classes.Fits call sig ∧ 0 < classes.boxed call ∧ 0 < sig ∧
    (classes.autobox call ≠ none → sig < classes.coreMax) ∧
    ∃ cl ∈ classes.mro (classes.boxed call), (cl.baseType : Int) = sig

variable {classes} {call sig : Int} {cls : Nat}

theorem anyPmc_neg : anyPmc < 0 := by decide

theorem autobox_cases (boxes : classes.autobox call = some cls) :
    call < 0 ∧ call ≠ anyPmc ∧ cls ∈ [classes.integer, classes.float, classes.string] := by
  unfold Classes.autobox at boxes
  split at boxes
  · subst_vars
    cases boxes
    exact ⟨by decide, by decide, mem_cons_self⟩
  split at boxes
  · subst_vars
    cases boxes
    exact ⟨by decide, by decide, mem_cons_of_mem _ mem_cons_self⟩
  split at boxes
  · subst_vars
    cases boxes
    exact ⟨by decide, by decide, mem_cons_of_mem _ (mem_cons_of_mem _ mem_cons_self)⟩
  · cases boxes

theorem boxed_of_native (boxes : classes.autobox call = some cls) :
    classes.boxed call = cls ∧ (0 : Int) < cls := by
  have pos := classes.boxes_pos cls (autobox_cases boxes).2.2
  exact ⟨by rw [Classes.boxed, boxes]; rfl, Int.natCast_pos.mpr pos⟩

theorem boxed_of_class (boxes : classes.autobox call = none) : classes.boxed call = call := by
  rw [Classes.boxed, boxes]
  rfl

theorem stopsAt_lt_iff : classes.stopsAt call sig < (classes.mro call).length ↔
      ∃ cl ∈ classes.mro call, (cl.baseType : Int) = sig ∨ (cl.type : Int) = sig := by
  rw [Classes.stopsAt, findIdx_lt_length]
  simp only [ClassObject.stops, decide_eq_true_eq]

theorem stopsAt_any (call : Int) : classes.stopsAt call anyPmc = (classes.mro call).length := by
  apply findIdx_eq_length.mpr
  intro cl _
  have negative := anyPmc_neg
  simp only [ClassObject.stops, decide_eq_false_iff_not]
  omega

theorem weighPmc_class (called : 0 < call) (positive : 0 < sig) : classes.weighPmc sig call =
      if classes.stopsAt call sig < (classes.mro call).length then
        some (classes.stopsAt call sig + 1) else none := by
  have negative := anyPmc_neg
  have bound : classes.stopsAt call sig ≤ (classes.mro call).length := findIdx_le_length
  rw [Classes.weighPmc, if_neg (by omega), if_neg (by omega)]
  by_cases found : classes.stopsAt call sig < (classes.mro call).length
  · rw [if_pos found, if_neg (by omega)]
  · rw [if_neg found, if_pos ⟨by omega, by omega⟩]

theorem weighPmc_any (called : 0 < call) :
    classes.weighPmc anyPmc call = some ((classes.mro call).length + 1) := by
  rw [Classes.weighPmc, if_neg (by omega), if_neg (by omega)]
  rw [if_neg fun both => both.2 rfl, stopsAt_any]

theorem weighPmc_any_native (native : call ≤ 0) : classes.weighPmc anyPmc call = some 1 := by
  rw [Classes.weighPmc, if_pos ⟨native, rfl⟩]

theorem weighPmc_nonpos (other : sig ≠ anyPmc) (nonpos : sig ≤ 0 ∨ call ≤ 0) :
    classes.weighPmc sig call = none := by
  rw [Classes.weighPmc, if_neg (fun both => other both.2), if_pos]
  rcases nonpos with nonpos | nonpos
  · exact .inl ⟨nonpos, other⟩
  · exact .inr nonpos

end

end RakudoStar.Multidispatch
