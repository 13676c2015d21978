import RakudoStar.Binder.BindParam

/-!
# The signature binder

`Rakudo_binding_bind` of `bind.c`. Beside the variables of the C loop the state carries `bound`,
a log of the arguments each parameter was bound to, written where the code reads them.
-/

namespace RakudoStar.Binder

variable {Ty Val : Type}

/-- Where a bound value came from: positionals, names, or a default. -/
inductive Source
  | positional (index : Nat)
  | slurpy (indices : List Nat)
  | capture (indices : List Nat) (names : List String)
  | named (name : String)
  | slurpyNamed (names : List String)
  | default
  deriving DecidableEq, Repr

/-- The variables of the binding loop. -/
structure LoopState (Ty Val : Type) where
  curPosArg : Nat
  namedArgsCopy : Option (NamedArgs Val)
  suppressArityFail : Bool
  lexpad : Lexpad Val
  bound : List (Param Ty Val × Source)

/-- The state once the next positional is bound to a parameter. -/
def LoopState.tookPositional (state : LoopState Ty Val) (param : Param Ty Val)
    (lexpad : Lexpad Val) : LoopState Ty Val :=
  { state with
    lexpad
    curPosArg := state.curPosArg + 1
    bound := state.bound ++ [(param, .positional state.curPosArg)] }

def namesOf (named : Option (NamedArgs Val)) : List String :=
  match named with
  | none => []
  | some hash => hash.keys

section

/-- The least and the largest number of positionals; -1 for a slurpy. -/
def arityAndCount (signature : List (Param Ty Val)) : Int × Int :=
  signature.foldl (fun (arity, count) param =>
    if param.namedNames.isSome || param.has .slurpyNamed then
      (arity, count)
    else if param.has .slurpyPos then
      (arity, -1)
    else if param.has .isOptional then
      (arity, count + 1)
    else
      (arity + 1, count + 1)) (0, 0)

def arityFail (signature : List (Param Ty Val)) (numPosArgs : Nat) (tooMany : Bool) : String :=
  let whozUp := if tooMany then "Too many" else "Not enough"
  let (arity, count) := arityAndCount signature
  if arity = count then
    s!"{whozUp} positional parameters passed; got {numPosArgs} but expected {arity}"
  else if count = -1 then
    s!"{whozUp} positional parameters passed; got {numPosArgs} but expected at least {arity}"
  else
    s!"{whozUp} positional parameters passed; got {numPosArgs} " ++
      s!"but expected between {arity} and {count}"

/-- The complaint about named arguments nobody took. -/
def unexpectedNamed (names : List String) : String :=
  match names with
  | [name] => s!"Unexpected named parameter '{name}' passed"
  | _ =>
    s!"{names.length} unexpected named parameters passed (" ++ ", ".intercalate names ++ ")"

end

variable (runtime : Runtime Ty Val) (wantError : Bool)

/-- Extract the positional and named parts of a capture. -/
def openCapture : Capture Val → Result (Args Val)
  | .callContext positionals named => .ok { positionals, named }
  | .object value =>
    if runtime.isSixModel value &&
        runtime.objectCheck value runtime.captureType then
      .ok
        { positionals := ((runtime.captureList value).getD []).map .obj
          named := runtime.captureHash value }
    else
      .error (.thrown ⟨"Internal Error: Rakudo_binding_bind passed invalid Capture"⟩)

/-- A bind value as an object, boxed if it is native. -/
def boxed : BindVal Val → Val
  | .obj object => object
  | native => runtime.createBox native

def handleOptional (param : Param Ty Val) (lexpad : Lexpad Val) : Result Val :=
  if param.has .defaultFromOuter then
    .ok (runtime.outerLexical param.name)
  else
    match param.defaultValue with
    | some value =>
      if param.has .defaultIsLiteral then
        .ok value
      else
        liftException (runtime.runThunk value lexpad)
    | none =>
      if param.has .arraySigil then
        .ok (runtime.createPositional none)
      else if param.has .hashSigil then
        .ok (runtime.createHash ∅)
      else
        .ok (runtime.typeObject param.nominalType)

/-- A parameter's fields and the function that binds a value to it. -/
abbrev Bindable (Ty Val : Type) := Param Ty Val × ParamBinder Val

section

variable (signature : List (Param Ty Val)) (args : Args Val)
  (noNomTypeCheck : Bool)

/-- Bind a snapshot of the arguments from this point on, where there is a variable. -/
def bindSnapshot (param : Param Ty Val) (binder : ParamBinder Val)
    (state : LoopState Ty Val) : Result (Lexpad Val) :=
  match param.variableName with
  | none => .ok state.lexpad
  | some _ =>
    let capsnap := runtime.newCapture
      ((args.positionals.drop state.curPosArg).map (boxed runtime))
      (state.namedArgsCopy.getD ∅)
    binder (.obj capsnap) noNomTypeCheck state.lexpad

def captureStep (param : Param Ty Val) (binder : ParamBinder Val)
    (next : Option (Param Ty Val)) (state : LoopState Ty Val) : Result (LoopState Ty Val) := do
  let indices := List.range' state.curPosArg
    (args.positionals.length - state.curPosArg)
  let lexpad ← bindSnapshot runtime args noNomTypeCheck param binder state
  -- A capture that is followed by a slurpy suppresses later arity checks.
  let suppress :=
    match next with
    | none => false
    | some nextParam => nextParam.has .slurpyPos || nextParam.has .slurpyNamed
  .ok { state with
    lexpad
    suppressArityFail := state.suppressArityFail || suppress
    bound := state.bound ++ [(param, .capture indices (namesOf state.namedArgsCopy))] }

/-- Bind what is left of the named arguments as a hash. -/
def bindNamedSlurpy (param : Param Ty Val) (binder : ParamBinder Val)
    (state : LoopState Ty Val) : Result (Lexpad Val) :=
  if param.has .methodSlurpyNamed && state.lexpad.isPerl6LexPad then
    .ok { state.lexpad with defaultNamedSlurpy := some state.namedArgsCopy }
  else
    binder (.obj (runtime.createHash (state.namedArgsCopy.getD ∅))) noNomTypeCheck state.lexpad

def namedSlurpyStep (param : Param Ty Val) (binder : ParamBinder Val)
    (state : LoopState Ty Val) : Result (LoopState Ty Val) := do
  let lexpad ← bindNamedSlurpy runtime noNomTypeCheck param binder state
  .ok { state with
    lexpad
    namedArgsCopy := none
    bound := state.bound ++ [(param, .slurpyNamed (namesOf state.namedArgsCopy))] }

/-- A slurpy or LoL-slurpy takes all remaining positionals. -/
def slurpyStep (param : Param Ty Val) (binder : ParamBinder Val)
    (state : LoopState Ty Val) : Result (LoopState Ty Val) := do
  let temp := (args.positionals.drop state.curPosArg).map (boxed runtime)
  let indices := List.range' state.curPosArg
    (args.positionals.length - state.curPosArg)
  let value := if param.has .slurpyPos then
      runtime.createPositional (some temp)
    else
      runtime.createLol temp
  let lexpad ← binder (.obj value) noNomTypeCheck state.lexpad
  .ok { state with
    lexpad
    curPosArg := max state.curPosArg args.positionals.length
    bound := state.bound ++ [(param, .slurpy indices)] }

/-- Bind the default of an optional parameter that got no argument. -/
def defaultStep (param : Param Ty Val) (binder : ParamBinder Val)
    (state : LoopState Ty Val) : Result (LoopState Ty Val) := do
  let value ← handleOptional runtime param state.lexpad
  let lexpad ← binder (.obj value) false state.lexpad
  .ok { state with lexpad, bound := state.bound ++ [(param, .default)] }

/-- A positional parameter takes the next argument or its default. -/
def positionalStep (param : Param Ty Val) (binder : ParamBinder Val)
    (state : LoopState Ty Val) : Result (LoopState Ty Val) :=
  match args.positionals[state.curPosArg]? with
  | some value => do
    let lexpad ← binder value noNomTypeCheck state.lexpad
    .ok (state.tookPositional param lexpad)
  | none =>
    if param.has .isOptional then
      defaultStep runtime param binder state
    else
      failWith wantError (arityFail signature args.positionals.length false)

/-- The first of the names of a parameter that was passed, with its value. -/
def findNamed (named : Option (NamedArgs Val)) (names : List String) : Option (String × Val) :=
  match named with
  | none => none
  | some hash =>
    names.findSome? fun name => (hash.lookup name).map fun value => (name, value)

/-- A named parameter takes and deletes the argument of one of its names, or its default. -/
def namedStep (param : Param Ty Val) (names : List String)
    (binder : ParamBinder Val) (state : LoopState Ty Val) : Result (LoopState Ty Val) :=
  match findNamed state.namedArgsCopy names with
  | some (name, value) => do
    let lexpad ← binder (.obj value) false state.lexpad
    .ok { state with
      lexpad
      namedArgsCopy := state.namedArgsCopy.map (·.erase name)
      bound := state.bound ++ [(param, .named name)] }
  | none =>
    if param.has .isOptional then
      defaultStep runtime param binder state
    else if !state.suppressArityFail then
      let firstName := names.headD ""
      failWith wantError s!"Required named parameter '{firstName}' not passed"
    else
      .ok state

/-- One round of the loop. -/
def bindStep (bindable : Bindable Ty Val) (next : Option (Param Ty Val))
    (state : LoopState Ty Val) : Result (LoopState Ty Val) :=
  let (param, binder) := bindable
  if param.has .isCapture then
    captureStep runtime args noNomTypeCheck param binder next state
  else if param.has .slurpyNamed then
    namedSlurpyStep runtime noNomTypeCheck param binder state
  else
    match param.namedNames with
    | none =>
      if param.has .slurpyPos || param.has .slurpyLol then
        slurpyStep runtime args noNomTypeCheck param binder state
      else
        positionalStep runtime wantError signature args noNomTypeCheck param binder state
    | some names => namedStep runtime wantError param names binder state

/-- Complain about left-over arguments once the walk is over. -/
def checkLeftOver (state : LoopState Ty Val) : Result (LoopState Ty Val) :=
  if state.curPosArg < args.positionals.length && !state.suppressArityFail then
    failWith wantError (arityFail signature args.positionals.length true)
  else if namesOf state.namedArgsCopy ≠ [] then
    failWith wantError (unexpectedNamed (namesOf state.namedArgsCopy))
  else
    .ok state

/-- Walk through the signature. A capture as the last parameter ends the
walk at once. -/
def bindLoop : List (Bindable Ty Val) → LoopState Ty Val → Result (LoopState Ty Val)
  | [], state => checkLeftOver wantError signature args state
  | bindable :: rest, state => do
    let after ← bindStep runtime wantError signature args noNomTypeCheck
      bindable (rest.head?.map Prod.fst) state
    if bindable.1.has .isCapture && rest.isEmpty then
      .ok after
    else
      bindLoop rest after

end

/-- The state before the first parameter. -/
def initialState (args : Args Val) (lexpad : Lexpad Val) : LoopState Ty Val :=
  { curPosArg := 0
    namedArgsCopy := args.named
    suppressArityFail := false
    lexpad
    bound := [] }

/-- `Rakudo_binding_bind` over parameters and binders, with the final checks. -/
def bindBindables (bindables : List (Bindable Ty Val)) (capture : Capture Val)
    (noNomTypeCheck : Bool) (lexpad : Lexpad Val) : Result (LoopState Ty Val) := do
  let args ← openCapture runtime capture
  bindLoop runtime wantError (bindables.map Prod.fst) args noNomTypeCheck
    bindables (initialState args lexpad)

variable [DecidableEq Ty]

mutual

def paramBinder : Parameter Ty Val → ParamBinder Val
  | .mk param subLlsig =>
    bindOneParam runtime wantError param (subBinder subLlsig)

/-- The binder of a nested signature, if there is one. -/
def subBinder : Option (List (Parameter Ty Val)) → Option (SignatureBinder Val)
  | none => none
  | some params => some fun capture noNomTypeCheck lexpad =>
    (bindBindables runtime wantError (bindables params) capture
      noNomTypeCheck lexpad).map LoopState.lexpad

/-- The parameters of a signature paired with their binders. -/
def bindables : List (Parameter Ty Val) → List (Bindable Ty Val)
  | [] => []
  | parameter :: rest =>
    (parameter.param, paramBinder parameter) :: bindables rest

end

def bind (signature : List (Parameter Ty Val)) (capture : Capture Val)
    (noNomTypeCheck : Bool) (lexpad : Lexpad Val) : Result (LoopState Ty Val) :=
  bindBindables runtime wantError (bindables runtime wantError signature)
    capture noNomTypeCheck lexpad

end RakudoStar.Binder
