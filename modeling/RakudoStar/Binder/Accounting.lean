import RakudoStar.Binder.Bind
import RakudoStar.SixModel.Diamond

/-!
# Argument accounting

What a successful run of the signature binder did with every argument: one lemma says what a
round can do, and the rest follows.
-/

namespace RakudoStar.Binder

open List RakudoStar.Except

variable {Ty Val : Type} (first second : List (Param Ty Val × Source)) (param : Param Ty Val)

/-- The positions a binding consumed. A capture only takes a snapshot. -/
def Source.consumedPositionals : Source → List Nat
  | .positional index => [index]
  | .slurpy indices => indices
  | _ => []

def Source.consumedNames : Source → List String
  | .named name => [name]
  | .slurpyNamed names => names
  | _ => []

def consumedPositionals (bound : List (Param Ty Val × Source)) : List Nat :=
  bound.flatMap fun entry => entry.2.consumedPositionals

def consumedNames (bound : List (Param Ty Val × Source)) : List String :=
  bound.flatMap fun entry => entry.2.consumedNames

@[simp]
theorem consumedPositionals_append : consumedPositionals (first ++ second) =
      consumedPositionals first ++ consumedPositionals second := by
  simp [consumedPositionals]

@[simp]
theorem consumedPositionals_singleton (source : Source) :
    consumedPositionals [(param, source)] = source.consumedPositionals := by
  simp [consumedPositionals]

@[simp]
theorem consumedNames_append : consumedNames (first ++ second) =
      consumedNames first ++ consumedNames second := by
  simp [consumedNames]

@[simp]
theorem consumedNames_singleton (source : Source) :
    consumedNames [(param, source)] = source.consumedNames := by
  simp [consumedNames]

def Param.IsRequiredNamed (param : Param Ty Val) : Prop :=
  param.namedNames.isSome ∧ param.has .isOptional = false

/-- May a parameter be bound to values of this source? -/
def Param.Accepts (param : Param Ty Val) : Source → Prop
  | .positional _ => param.namedNames = none
  | .slurpy _ => param.has .slurpyPos || param.has .slurpyLol
  | .capture _ _ => param.has .isCapture
  | .named name => ∃ names, param.namedNames = some names ∧ name ∈ names
  | .slurpyNamed _ => param.has .slurpyNamed
  | .default => param.has .isOptional

variable (args : Args Val)

/-- Everything a successful round of the loop can have done, but for the lexpad. -/
inductive RoundEffect (param : Param Ty Val) (next : Option (Param Ty Val))
    (state after : LoopState Ty Val) : Prop
  | consumed (source : Source) (accepts : param.Accepts source)
      (bound : after.bound = state.bound ++ [(param, source)])
      (suppress : after.suppressArityFail = state.suppressArityFail)
      (positionals : source.consumedPositionals =
        List.range' state.curPosArg (after.curPosArg - state.curPosArg))
      (progress : state.curPosArg ≤ after.curPosArg)
      (inBounds : state.curPosArg ≤ args.positionals.length →
        after.curPosArg ≤ args.positionals.length)
      (names : (source.consumedNames ++ namesOf after.namedArgsCopy).Perm
        (namesOf state.namedArgsCopy))
      (noCapture : ∀ indices names, source ≠ .capture indices names)
  | captured (isCapture : param.has .isCapture = true)
      (bound : after.bound = state.bound ++ [(param, .capture (List.range' state.curPosArg
            (args.positionals.length - state.curPosArg)) (namesOf state.namedArgsCopy))])
      (suppress : after.suppressArityFail = true → state.suppressArityFail = true ∨
          ∃ nextParam, next = some nextParam ∧
            (nextParam.has .slurpyPos || nextParam.has .slurpyNamed) = true)
      (keeps : state.suppressArityFail = true → after.suppressArityFail = true)
      (curPosArg : after.curPosArg = state.curPosArg)
      (namedArgsCopy : after.namedArgsCopy = state.namedArgsCopy)
  | skipped (isNamed : param.IsRequiredNamed)
      (suppressed : state.suppressArityFail = true)
      (same : after = state)

variable {args} {names : List String}

variable {runtime : Runtime Ty Val} {wantError : Bool}
  {signature : List (Param Ty Val)} {noNomTypeCheck : Bool}
  {param : Param Ty Val} {binder : ParamBinder Val}
  {next : Option (Param Ty Val)} {state after final : LoopState Ty Val}

variable (args) in
/-- The walk's invariant: what is behind the counter is consumed, once and in order. -/
structure Ledger (state : LoopState Ty Val) : Prop where
  positionals : consumedPositionals state.bound = List.range state.curPosArg
  inBounds : state.curPosArg ≤ args.positionals.length
  names : (consumedNames state.bound ++ namesOf state.namedArgsCopy).Perm (namesOf args.named)
  snapshots : ∀ param indices names,
    (param, Source.capture indices names) ∈ state.bound →
      (∀ index, state.curPosArg ≤ index → index < args.positionals.length → index ∈ indices) ∧
      ∀ name ∈ namesOf state.namedArgsCopy, name ∈ names
  suppressed : state.suppressArityFail = true →
    ∃ param indices names, (param, Source.capture indices names) ∈ state.bound

theorem range_append_range' {start stop : Nat} (progress : start ≤ stop) :
    List.range start ++ List.range' start (stop - start) = List.range stop := by
  have joined := @range'_append_1 0 start (stop - start)
  rw [Nat.zero_add, Nat.add_sub_cancel' progress] at joined
  rw [range_eq_range', range_eq_range', joined]

theorem RoundEffect.ledger (effect : RoundEffect args param next state after)
    (ledger : Ledger args state) : Ledger args after := by
  cases effect with
  | consumed source accepts bound suppress positionals progress inBounds names
      noCapture =>
      refine ⟨?_, inBounds ledger.inBounds, ?_, ?_, ?_⟩
      · rw [bound, consumedPositionals_append, ledger.positionals,
          consumedPositionals_singleton, positionals, range_append_range' progress]
      · rw [bound, consumedNames_append, consumedNames_singleton, append_assoc]
        exact (names.append_left _).trans ledger.names
      · intro other indices captured mem
        rw [bound, mem_append, mem_singleton] at mem
        rcases mem with old | new
        · rcases ledger.snapshots other indices captured old with ⟨ahead, unbound⟩
          refine ⟨fun index behind => ahead index (le_trans progress behind), ?_⟩
          intro name mem
          exact unbound name (names.subset (mem_append_right _ mem))
        · exact absurd (congrArg Prod.snd new).symm (noCapture indices captured)
      intro suppressed
      rw [suppress] at suppressed
      rcases ledger.suppressed suppressed with ⟨other, indices, captured, mem⟩
      exact ⟨other, indices, captured, bound ▸ mem_append_left _ mem⟩
  | captured isCapture bound suppress keeps curPosArg namedArgsCopy =>
    refine ⟨?_, curPosArg ▸ ledger.inBounds, ?_, ?_, ?_⟩
    · rw [bound, consumedPositionals_append, consumedPositionals_singleton,
        ledger.positionals, curPosArg]
      simp [Source.consumedPositionals]
    · rw [bound, consumedNames_append, consumedNames_singleton, namedArgsCopy]
      simpa [Source.consumedNames] using ledger.names
    · intro other indices names mem
      rw [bound, mem_append, mem_singleton] at mem
      rw [curPosArg, namedArgsCopy]
      rcases mem with old | new
      · exact ledger.snapshots other indices names old
      cases new
      refine ⟨fun index behind inside => ?_, fun name mem => mem⟩
      rw [mem_range'_1]
      omega
    · intro _
      exact ⟨param, _, _, bound ▸ mem_append_right _ (mem_singleton_self _)⟩
  | skipped isNamed suppressed same => exact same ▸ ledger

end RakudoStar.Binder
