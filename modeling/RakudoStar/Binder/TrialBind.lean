import RakudoStar.Binder.Accounting

/-!
# Trial binding

`Rakudo_binding_trial_bind` of `bind.c` walks the signature with argument types at compile time;
its verdicts are related to what the binder does with instances of those types.
-/

namespace RakudoStar.Binder

open List RakudoStar.Except

variable {Ty Val : Type} [DecidableEq Ty] {param : Param Ty Val} {interp : Interp Ty Val}
  {got : NativeKind}

/-- `TRIAL_BIND_NOT_SURE`, `TRIAL_BIND_OK` and `TRIAL_BIND_NO_WAY`. -/
inductive TrialResult
  | notSure
  | ok
  | noWay
  deriving DecidableEq, Repr

def analysedFlags : List SigElem :=
  [.multiInvocant, .isParcel, .isCopy, .arraySigil, .hashSigil,
    .nativeIntValue, .nativeNumValue, .nativeStrValue]

/-- A boring old required positional parameter, as far as `trial_bind`
looks. -/
def Param.isAnalysed (param : Param Ty Val) : Bool :=
  param.flags.all (analysedFlags.contains ·) && param.namedNames.isNone &&
    param.postConstraints.isNone && param.typeCaptures.isNone

/-- Does an argument type match? A mismatch may still become a match for a subtype. -/
def trialType (interp : Interp Ty Val) (param : Param Ty Val) (type : Ty) : Option TrialResult :=
  if param.nominalType = interp.mu ||
      interp.typeCheck type false param.nominalType then
    none
  else if type = interp.junction then
    some .notSure
  else if interp.typeCheck param.nominalType false type then
    some .notSure
  else
    some .noWay

/-- Consider one argument for one parameter; `none` continues the walk. -/
def trialParam (interp : Interp Ty Val) (param : Param Ty Val)
    (arg : CtArg Ty) : Option TrialResult :=
  match param.nativeKinds, arg with
  | [], _ => trialType interp param (arg.boxedType interp)
  | [kind], .object type =>
    if interp.canBox type kind then none else some .notSure
  | _, .object _ => some .notSure
  | kinds, .native got =>
    if kinds.any (· != got) then some .noWay else none

def trialBind (interp : Interp Ty Val) : List (Param Ty Val) → List (CtArg Ty) → TrialResult
  | [], [] => .ok
  | [], _ :: _ => .noWay
  | param :: params, args =>
    if param.isAnalysed then
      match args with
      | [] => .noWay
      | arg :: args => (trialParam interp param arg).getD (trialBind interp params args)
    else
      .notSure

/-- `trial_bind` gives a type up without a type check in either direction. -/
theorem trialType_eq_noWay {type : Ty} (gaveUp : trialType interp param type = some .noWay) :
    param.nominalType ≠ interp.mu ∧ interp.typeCheck type false param.nominalType = false ∧
        interp.typeCheck param.nominalType false type = false := by
  unfold trialType at gaveUp
  split at gaveUp
  · cases gaveUp
  case isFalse mismatch =>
    simp only [Bool.or_eq_true, decide_eq_true_eq, not_or, Bool.not_eq_true] at mismatch
    split at gaveUp
    · cases gaveUp
    split at gaveUp
    · cases gaveUp
    case isFalse flipped =>
      exact ⟨mismatch.1, mismatch.2, by simpa using flipped⟩

/-- On natives `trial_bind` gives up only where a kind is another one. -/
theorem trialParam_native_eq_noWay (native : param.nativeKinds ≠ [])
    (gaveUp : trialParam interp param (.native got) = some .noWay) :
    param.nativeKinds.any (· != got) = true := by
  unfold trialParam at gaveUp
  split at gaveUp
  case h_1 noKinds => exact absurd noKinds native
  case h_2 => contradiction
  case h_3 => contradiction
  case h_4 =>
    cases ‹CtArg.native got = CtArg.native _›
    split at gaveUp
    case isTrue different => exact different
    case isFalse => cases gaveUp

theorem trialParam_object_ne_noWay {type : Ty} (native : param.nativeKinds ≠ []) :
    trialParam interp param (.object type) ≠ some .noWay := by
  intro gaveUp
  unfold trialParam at gaveUp
  split at gaveUp
  case h_1 noKinds => exact absurd noKinds native
  case h_2 => split at gaveUp <;> cases gaveUp
  case h_3 => cases gaveUp
  case h_4 => contradiction

/-- Boxing allocates a fresh object of the box type. -/
structure BoxLaws (runtime : Runtime Ty Val) : Prop where
  sixModel : ∀ value, runtime.isSixModel (runtime.createBox value) = true
  decont : ∀ value, runtime.decontainerize (runtime.createBox value) = runtime.createBox value
  what : ∀ value kind, value.nativeKind = some kind →
    runtime.what (runtime.createBox value) = runtime.boxType kind

section

variable (runtime : Runtime Ty Val) (wantError : Bool) (noNomTypeCheck : Bool)

/-- The lexpad once the lexical of a parameter is bound. -/
def withLexical (param : Param Ty Val) (object coerced : Val) (lexpad : Lexpad Val) : Lexpad Val :=
  (bindLexical runtime param (.obj object) (some coerced) lexpad).toOption.getD lexpad

end

omit [DecidableEq Ty] in
theorem Param.isAnalysed_has (analysed : param.isAnalysed = true) {flag : SigElem}
    (outside : analysedFlags.contains flag = false) : param.has flag = false := by
  simp only [isAnalysed, Bool.and_eq_true, all_eq_true] at analysed
  simp only [has, decide_eq_false_iff_not]
  intro mem
  have listed := analysed.1.1.1 flag mem
  rw [outside] at listed
  cases listed

omit [DecidableEq Ty] in
theorem Param.isAnalysed_namedNames
    (analysed : param.isAnalysed = true) : param.namedNames = none := by
  simp only [isAnalysed, Bool.and_eq_true, Option.isNone_iff_eq_none] at analysed
  exact analysed.1.1.2

variable {runtime : Runtime Ty Val} {wantError : Bool} {noNomTypeCheck : Bool}
  {param : Param Ty Val} {arg : CtArg Ty} {value bound : BindVal Val}
  {signature : List (Param Ty Val)} {parameter : Parameter Ty Val} {lexpad : Lexpad Val}
  {parameters : List (Parameter Ty Val)} {args : Args Val} {ctArgs : List (CtArg Ty)}
  {values : List (BindVal Val)} {state : LoopState Ty Val}

theorem checkNominal_of_analysed (analysed : param.isAnalysed = true)
    {decont : Val} (sixModel : runtime.isSixModel decont = true) :
    checkNominal runtime wantError param decont lexpad = .ok () ↔ param.nominalType = runtime.mu ∨
        runtime.objectCheck decont param.nominalType = true := by
  have generic : param.has .nominalGeneric = false := param.isAnalysed_has analysed rfl
  have undefinedOnly : param.has .undefinedOnly = false := param.isAnalysed_has analysed rfl
  have definedOnly : param.has .definedOnly = false := param.isAnalysed_has analysed rfl
  by_cases isMu : param.nominalType = runtime.mu
  · simp [checkNominal, nominalTypeOf, generic, isMu, checkDefinedness,
      Param.hasDefinednessCheck, undefinedOnly, definedOnly]
  cases checked : runtime.objectCheck decont param.nominalType with
  | true =>
    simp [checkNominal, nominalTypeOf, generic, sixModel, checked,
      checkDefinedness, Param.hasDefinednessCheck, undefinedOnly, definedOnly]
  | false =>
    simp only [checkNominal, nominalTypeOf, generic, Bool.false_eq_true,
      if_false, ok_bind, sixModel, checked, Bool.not_true,
      Bool.not_false, Bool.or_true, and_true, isMu, ne_eq, not_false_eq_true,
      if_true, or_self, iff_false]
    unfold juncOrFail
    dsimp only
    split <;> simp

/-- An object that reaches the type check, with a type below the one known at
compile time. -/
structure ReachesCheck (runtime : Runtime Ty Val) (arg : CtArg Ty)
    (object : Val) : Prop where
  sixModel : runtime.isSixModel object = true
  decontSixModel : runtime.isSixModel (runtime.decontainerize object) = true
  below : runtime.IsSubtype (runtime.what (runtime.decontainerize object))
    (arg.boxedType runtime.toInterp)

section
omit [DecidableEq Ty]

theorem matchNative_boxed (noNative : param.nativeKinds = []) :
    matchNative runtime wantError param value = .ok (.obj (boxed runtime value)) := by
  cases value <;> simp [matchNative, noNative, boxed]

theorem reachesCheck_boxed (lattice : runtime.TypeLattice) (laws : BoxLaws runtime)
    (instanceOf : InstanceOf runtime.toInterp arg value) :
    ReachesCheck runtime arg (boxed runtime value) := by
  cases instanceOf with
  | object sixModel decontSixModel below => exact ⟨sixModel, decontSixModel, below⟩
  | @native kind value isKind =>
    have isBoxed : boxed runtime value = runtime.createBox value := by
      cases value with
      | obj object => cases isKind
      | _ => rfl
    rw [isBoxed]
    refine ⟨laws.sixModel value, ?_, ?_⟩
    · rw [laws.decont, laws.sixModel]
    · rw [laws.decont, laws.what value kind isKind]
      exact lattice.refl _

end

section
omit [DecidableEq Ty]

section

variable (analysed : param.isAnalysed = true)

include analysed

end

variable {coerced : Option Val}

end

omit [DecidableEq Ty] in
theorem bindStep_of_analysed {binder : ParamBinder Val} {next : Option (Param Ty Val)}
    (analysed : param.isAnalysed = true) :
    bindStep runtime wantError signature args noNomTypeCheck (param, binder)
        next state = positionalStep runtime wantError signature args noNomTypeCheck param
        binder state := by
  have isCapture : param.has .isCapture = false := param.isAnalysed_has analysed rfl
  have slurpyNamed : param.has .slurpyNamed = false := param.isAnalysed_has analysed rfl
  have slurpyPos : param.has .slurpyPos = false := param.isAnalysed_has analysed rfl
  have slurpyLol : param.has .slurpyLol = false := param.isAnalysed_has analysed rfl
  simp [bindStep, isCapture, slurpyNamed, slurpyPos, slurpyLol,
    Param.isAnalysed_namedNames analysed]

theorem Diamond.boxLaws : BoxLaws Diamond.runtime where
  sixModel _ := rfl
  decont _ := rfl
  what value kind isKind := by
    cases value <;> cases isKind <;> rfl

/-- The types for which `trial_bind` gave up. -/
def rejectedTypes (interp : Interp Ty Val) :
    List (Param Ty Val) → List (CtArg Ty) → Option (Ty × Ty)
  | param :: params, arg :: args =>
    if param.isAnalysed then
      match trialParam interp param arg with
      | none => rejectedTypes interp params args
      | some .noWay =>
        if param.nativeKinds = [] then
          some (arg.boxedType interp, param.nominalType)
        else
          none
      | some _ => none
    else
      none
  | _, _ => none

omit [DecidableEq Ty] in
theorem matchNative_wrongKind (native : param.nativeKinds ≠ [])
    (wrong : param.nativeKinds.any (· != got) = true) (isGot : value.nativeKind = some got) :
    matchNative runtime wantError param value ≠ .ok bound := by
  unfold matchNative
  cases kinds : param.nativeKinds with
  | nil => exact absurd kinds native
  | cons kind rest =>
    cases rest with
    | nil =>
      have different : ¬ got = kind := by
        rw [kinds] at wrong
        intro same
        simp [same] at wrong
      cases value <;> simp_all [BindVal.nativeKind]
    | cons second rest =>
      cases value <;> simp_all [BindVal.nativeKind]

/-- The type check refuses every instance, unless the types have a common subtype. -/
theorem paramBinder_of_noWay (lattice : runtime.TypeLattice)
    (laws : BoxLaws runtime) (analysed : parameter.param.isAnalysed = true)
    (gaveUp : trialParam runtime.toInterp parameter.param arg = some .noWay)
    (disjoint : parameter.param.nativeKinds = [] → ∀ type,
      runtime.IsSubtype type (arg.boxedType runtime.toInterp) →
        ¬ runtime.IsSubtype type parameter.param.nominalType)
    (instanceOf : InstanceOf runtime.toInterp arg value) (lexpad after : Lexpad Val) :
    paramBinder runtime wantError parameter value false lexpad ≠ .ok after := by
  rcases parameter with ⟨param, subLlsig⟩
  intro bindsOk
  simp only [paramBinder, bindOneParam, bind_eq_ok_iff] at bindsOk
  rcases bindsOk with ⟨bound, matched, checked, checks, _⟩
  cases kinds : param.nativeKinds with
  | nil =>
    have reaches := reachesCheck_boxed lattice laws instanceOf
    rw [matchNative_boxed kinds] at matched
    cases matched
    simp only [checkValue, marshal, reaches.sixModel, if_true,
      ok_bind, Bool.false_eq_true, if_false, bind_eq_ok_iff] at checks
    rcases checks with ⟨_, nominal, _⟩
    simp only [trialParam, Parameter.param_mk, kinds] at gaveUp
    rcases trialType_eq_noWay gaveUp with ⟨notMu, _, _⟩
    rcases (checkNominal_of_analysed analysed reaches.decontSixModel).mp
      nominal with isMu | passes
    · exact notMu isMu
    refine disjoint kinds _ reaches.below ?_
    rw [Interp.objectCheck, lattice.concreteness] at passes
    exact passes
  | cons kind rest =>
    have native : param.nativeKinds ≠ [] := by simp [kinds]
    cases arg with
    | object type => exact trialParam_object_ne_noWay native gaveUp
    | native got =>
      cases instanceOf with
      | native isKind =>
        exact matchNative_wrongKind native (trialParam_native_eq_noWay native gaveUp) isKind matched

/-- What could never work fails at run time, unless the types have a common subtype. -/
theorem bindLoop_of_noWay (lattice : runtime.TypeLattice) (laws : BoxLaws runtime)
    {final : LoopState Ty Val}
    (noWay : trialBind runtime.toInterp (parameters.map Parameter.param) ctArgs = .noWay)
    (disjoint : ∀ argType nominal,
      rejectedTypes runtime.toInterp (parameters.map Parameter.param) ctArgs =
        some (argType, nominal) → ∀ type,
      runtime.IsSubtype type argType → ¬ runtime.IsSubtype type nominal)
    (instances : List.Forall₂ (InstanceOf runtime.toInterp) ctArgs values)
    (ahead : args.positionals.drop state.curPosArg = values)
    (strict : state.suppressArityFail = false) : bindLoop runtime wantError signature args false
      (bindables runtime wantError parameters) state ≠ .ok final := by
  intro loop
  induction parameters generalizing ctArgs values state with
  | nil =>
    cases instances with
    | nil => cases noWay
    | @cons _ value _ values _ _ =>
      have behind : state.curPosArg < args.positionals.length := by
        by_contra done
        rw [drop_eq_nil_of_le (by omega)] at ahead
        cases ahead
      simp [bindables, bindLoop, checkLeftOver, behind, strict, failWith] at loop
  | cons parameter parameters ih =>
    simp only [map_cons, trialBind] at noWay
    split at noWay
    case isFalse => cases noWay
    case isTrue analysed =>
      have noCapture : parameter.param.has .isCapture = false :=
        parameter.param.isAnalysed_has analysed rfl
      have required : parameter.param.has .isOptional = false :=
        parameter.param.isAnalysed_has analysed rfl
      simp only [bindables, bindLoop, bindStep_of_analysed analysed,
        noCapture, Bool.false_and, Bool.false_eq_true, if_false, bind_eq_ok_iff] at loop
      rcases loop with ⟨after, step, loop⟩
      cases instances with
      | nil =>
        have absent : args.positionals[state.curPosArg]? = none := by
          rw [← head?_drop, ahead, head?_nil]
        simp [positionalStep, absent, required, failWith] at step
      | @cons arg value ctArgs values instanceOf instances =>
        have present : args.positionals[state.curPosArg]? = some value := by
          rw [← head?_drop, ahead, head?_cons]
        have rest : args.positionals.drop (state.curPosArg + 1) = values := by
          rw [← tail_drop, ahead, tail_cons]
        simp only [positionalStep, present, bind_eq_ok_iff] at step
        rcases step with ⟨lexpad, bound, equal⟩
        cases equal
        cases verdict : trialParam runtime.toInterp parameter.param arg with
        | none =>
          simp only [verdict, Option.getD_none] at noWay
          simp only [map_cons, rejectedTypes, analysed, if_true, verdict] at disjoint
          exact @ih ctArgs values
            (state.tookPositional parameter.param lexpad) noWay disjoint
            instances rest strict loop
        | some given =>
          simp only [verdict, Option.getD_some] at noWay
          subst noWay
          refine paramBinder_of_noWay lattice laws analysed verdict ?_ instanceOf _ _ bound
          intro noNative
          exact disjoint _ _ (by
            simp [rejectedTypes, analysed, verdict, noNative])

end RakudoStar.Binder
