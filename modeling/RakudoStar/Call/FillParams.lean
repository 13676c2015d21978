import RakudoStar.Foundation.Loop
import RakudoStar.Foundation.Except
import Mathlib.Data.List.Perm.Basic

/-!
# Filling the parameters of a call

`fill_params` of `call/args.c`: a loop for the positional arguments, one for the named
arguments, and a test for named arguments that went nowhere. A store records which argument was
fetched as which type, and for which place of the list.
-/

namespace RakudoStar.Call

open Loop List

def argString : Nat := 0x0001
def argPmc : Nat := 0x0002
def argTypeMask : Nat := 0x000f
def argConstant : Nat := 0x0010
def argSlurpyArray : Nat := 0x0020
def argOptional : Nat := 0x0080
def argOptFlag : Nat := 0x0100
def argName : Nat := 0x0200
def argCallSig : Nat := 0x1000

inductive ParamType
  | intval
  | string
  | pmc
  | floatval
  deriving DecidableEq, Repr

def ParamType.bits : ParamType → Nat
  | .intval => 0
  | .string => argString
  | .pmc => argPmc
  | .floatval => 3

/-- One place of a raw signature; `none` is `STRINGNULL`. -/
structure RawParam where
  flags : Nat
  name : Option String
  deriving DecidableEq, Repr

def RawParam.has (param : RawParam) (bit : Nat) : Bool :=
  param.flags &&& bit != 0

/-- `switch (PARROT_ARG_TYPE_MASK_MASK(param_flags))`, `none` for its default. -/
def RawParam.type (param : RawParam) : Option ParamType :=
  match param.flags &&& argTypeMask with
  | 0 => some .intval
  | 1 => some .string
  | 2 => some .pmc
  | 3 => some .floatval
  | _ => none

/-- A call object: its positionals, and the names of its hash in iteration order. -/
structure CallContext where
  positionals : Nat
  names : List String
  distinct : names.Nodup

/-- What is stored in a place of the parameter list. -/
inductive Fill
  | positional (type : ParamType) (index : Nat)
  | named (type : ParamType) (name : String)
  | collectPositional (indices : List Nat)
  | collectNamed (names : List String)
  | default (type : ParamType)
  | optFlag (received : Bool)
  | callObject
  deriving DecidableEq, Repr

/-- A write through the accessor, at its `param_index`. -/
abbrev Store := Nat × Fill

/-- The locals of `fill_params`; `used` is the `named_used_list`. -/
structure Filling where
  paramIndex : Nat
  params : List RawParam
  argIndex : Nat
  namedCount : Nat
  used : Option (List (Option String))
  stores : List Store

namespace Filling

/-- The locals at the start of the loops. -/
def start (params : List RawParam) (stores : List Store) : Filling :=
  { paramIndex := 0, params := params, argIndex := 0, namedCount := 0,
    used := none, stores := stores }

def nextParam (s : Filling) : Filling :=
  { s with paramIndex := s.paramIndex + 1, params := s.params.tail }

def nextArg (s : Filling) : Filling :=
  { s with argIndex := s.argIndex + 1 }

def countNamed (s : Filling) : Filling :=
  { s with namedCount := s.namedCount + 1 }

/-- `Parrot_hash_put(interp, named_used_list, name, 1)`, in a list created when needed. -/
def markUsed (s : Filling) (name : Option String) : Filling :=
  { s with used := some (name :: s.used.getD []) }

/-- Write to the place at `param_index`. -/
def store (s : Filling) (fill : Fill) : Filling :=
  { s with stores := s.stores ++ [(s.paramIndex, fill)] }

/-- `Parrot_hash_exists(interp, named_used_list, name)`, false without a list. -/
def isUsed (s : Filling) (name : String) : Bool :=
  match s.used with
  | none => false
  | some used => decide (some name ∈ used)

/-- Mark the option flag of the parameter at `param_index`, when the next place
is one. -/
def markOptFlag (s : Filling) (received : Bool) : Filling :=
  match s.params.tail with
  | [] => s
  | next :: _ => if next.has argOptFlag then s.nextParam.store (.optFlag received) else s

end Filling

def assignDefaultParamValue (param : RawParam) (s : Filling) : Except String Filling :=
  match param.type with
  | some type => .ok (s.store (.default type))
  | none => .error "invalid parameter type"

/-- What follows the positional loop: the named loop, or the return of `:call_sig`. -/
inductive AfterPositionals
  | namedLoop (s : Filling)
  | returned (stores : List Store)

/-- Fill the parameter with the positional argument, mark its option flag and go on. -/
def fillPositional (param : RawParam) (s : Filling) :
    Except String (Iteration Filling AfterPositionals) :=
  match param.type with
  | none => .error "invalid parameter type"
  | some type =>
    let filled := s.store (.positional type s.argIndex)
    let marked := if param.has argOptional then filled.markOptFlag true else filled
    .ok (.again marked.nextArg.nextParam)

/-- The body of the loop over positional arguments and parameters. -/
def positionalStep (errCheck : Bool) (positionalArgs : Nat) (s : Filling) :
    Except String (Iteration Filling AfterPositionals) :=
  match s.params with
  | [] => .ok (.leave (.namedLoop s))
  | param :: _ =>
    if param.has argCallSig then .ok (.leave (.returned s.stores))
    else if param.has argSlurpyArray then
      -- a named slurpy is left to the named loop
      if param.has argName then .ok (.leave (.namedLoop s))
      else if s.namedCount > 0 then
        .error "named parameters must follow all positional parameters"
      else
        let collected := List.range' s.argIndex (positionalArgs - s.argIndex)
        let filled := (s.store (.collectPositional collected)).nextParam
        .ok (.leave (.namedLoop { filled with argIndex := max s.argIndex positionalArgs }))
    else if s.argIndex < positionalArgs then
      if param.has argName then
        -- a named parameter is filled with a positional argument
        if !param.has argString then
          .error "named parameters must have a name specified"
        else
          let counted := s.countNamed.nextParam
          match counted.params with
          | [] => .ok (.again counted)
          | value :: _ => fillPositional value (counted.markUsed param.name)
      else if s.namedCount > 0 then
        .error "named parameters must follow all positional parameters"
      else fillPositional param s
    else if param.has argOptional then
      if param.has argName then .ok (.leave (.namedLoop s))
      else do
        let filled ← assignDefaultParamValue param s
        .ok (.again (filled.markOptFlag false).nextArg.nextParam)
    else if param.has argName then .ok (.leave (.namedLoop s))
    else if errCheck then
      let expected := s.paramIndex + 1
      .error (s!"too few positional arguments: {positionalArgs} passed, " ++
        s!"{expected} (or more) expected")
    else do
      let filled ← assignDefaultParamValue param s
      .ok (.again filled.nextArg.nextParam)

/-- The names that no parameter used, put into the collected hash and counted. -/
def collectNames (s : Filling) : List String → Filling × List String
  | [] => (s, [])
  | name :: names =>
    if s.isUsed name then collectNames s names
    else
      let rest := collectNames (s.markUsed (some name)).countNamed names
      (rest.1, name :: rest.2)

/-- Fill the value with the named argument, mark its option flag and go on. -/
def fillNamed (value : RawParam) (name : String) (s : Filling) :
    Except String (Iteration Filling Filling) :=
  match value.type with
  | none => .error "invalid parameter type"
  | some type =>
    let filled := s.store (.named type name)
    let marked := if value.has argOptional then filled.markOptFlag true else filled
    .ok (.again marked.nextParam)

/-- The body of the loop over named arguments and parameters. -/
def namedStep (errCheck : Bool) (names : List String) (s : Filling) :
    Except String (Iteration Filling Filling) :=
  match s.params with
  | [] => .ok (.leave s)
  | param :: _ =>
    if !param.has argName then
      .error "named parameters must follow all positional parameters"
    else if param.has argSlurpyArray then
      let collected := collectNames s names
      .ok (.leave (collected.1.store (.collectNamed collected.2)))
    else if !param.has argString then
      .error "named parameters must have a name specified"
    else
      match param.name with
      | none => .ok (.again s.nextParam)
      | some name =>
        let atValue := s.nextParam
        match atValue.params with
        | [] => .ok (.again atValue)
        | value :: _ =>
          if name ∈ names then
            fillNamed value name (atValue.markUsed (some name)).countNamed
          else if value.has argOptional then do
            let filled ← assignDefaultParamValue value atValue
            .ok (.again (filled.markOptFlag false).nextParam)
          else if errCheck then
            .error (s!"too few named arguments: " ++
              s!"no argument for required parameter '{name}'")
          else .ok (.again atValue.nextParam)

namespace Filling

variable (s : Filling) (received : Bool)

@[simp]
theorem params_nextParam : s.nextParam.params = s.params.tail :=
  rfl

@[simp]
theorem params_nextArg : s.nextArg.params = s.params :=
  rfl

@[simp]
theorem params_countNamed : s.countNamed.params = s.params :=
  rfl

@[simp]
theorem params_markUsed (name : Option String) : (s.markUsed name).params = s.params :=
  rfl

@[simp]
theorem params_store (fill : Fill) : (s.store fill).params = s.params :=
  rfl

theorem length_markOptFlag_le : (s.markOptFlag received).params.length ≤ s.params.length := by
  unfold markOptFlag
  split
  · exact Nat.le_refl _
  split
  · simp
  · exact Nat.le_refl _

theorem length_tail_markOptFlag_lt (nonempty : s.params ≠ []) :
    (s.markOptFlag received).params.tail.length < s.params.length := by
  have positive : 0 < s.params.length := length_pos_iff.mpr nonempty
  have bounded := length_markOptFlag_le s received
  rw [length_tail]
  omega

end Filling

theorem assignDefaultParamValue_params {param : RawParam} {s filled : Filling}
    (assigned : assignDefaultParamValue param s = .ok filled) : filled.params = s.params := by
  unfold assignDefaultParamValue at assigned
  split at assigned
  · cases assigned
    rfl
  · cases assigned

theorem fillPositional_decreases {param : RawParam} {s next : Filling}
    (nonempty : s.params ≠ []) (filled : fillPositional param s = .ok (.again next)) :
    next.params.length < s.params.length := by
  unfold fillPositional at filled
  split at filled
  · cases filled
  cases filled
  split
  · exact Filling.length_tail_markOptFlag_lt _ _ nonempty
  · simpa using Nat.pred_lt (mt length_eq_zero_iff.mp nonempty)

theorem fillNamed_decreases {value : RawParam} {name : String} {s next : Filling}
    (nonempty : s.params ≠ []) (filled : fillNamed value name s = .ok (.again next)) :
    next.params.length < s.params.length := by
  unfold fillNamed at filled
  split at filled
  · cases filled
  cases filled
  split
  · exact Filling.length_tail_markOptFlag_lt _ _ nonempty
  · simpa using Nat.pred_lt (mt length_eq_zero_iff.mp nonempty)

theorem default_decreases {α : Type} {param : RawParam} {s : Filling} {next : Filling}
    {advance : Filling → Filling} (advances : ∀ filled, filled.params = s.params →
      (advance filled).params.length < s.params.length)
    (assigned : (assignDefaultParamValue param s >>= fun filled =>
      .ok (.again (advance filled))) = (.ok (.again next) : Except String (Iteration Filling α))) :
    next.params.length < s.params.length := by
  rcases Except.of_bind assigned with ⟨filled, filledEq, advanced⟩
  cases advanced
  exact advances filled (assignDefaultParamValue_params filledEq)

theorem positionalStep_decreases (errCheck : Bool) (positionalArgs : Nat) :
    Decreases (positionalStep errCheck positionalArgs) (fun s => s.params.length) := by
  intro s next round
  change next.params.length < s.params.length
  unfold positionalStep at round
  split at round
  · cases round
  rename_i param rest present
  have nonempty : s.params ≠ [] := by simp [present]
  split at round
  · cases round
  split at round
  · split at round
    · cases round
    · split at round <;> cases round
  split at round
  · split at round
    · split at round
      · cases round
      dsimp only at round
      split at round
      · cases round
        simp [present]
      rename_i value others atValue
      have atRest : rest = value :: others := by simpa [present] using atValue
      have shorter := fillPositional_decreases (by simp [present, atRest]) round
      simp only [Filling.params_markUsed, Filling.params_nextParam,
        Filling.params_countNamed, present, tail_cons] at shorter ⊢
      exact Nat.lt_succ_of_lt shorter
    · split at round
      · cases round
      · exact fillPositional_decreases nonempty round
  split at round
  · split at round
    · cases round
    exact default_decreases
      (fun filled same => same ▸ Filling.length_tail_markOptFlag_lt filled false
        (same ▸ nonempty)) round
  split at round
  · cases round
  split at round
  · cases round
  · exact default_decreases (fun filled same => by simp [same, present]) round

theorem namedStep_decreases (errCheck : Bool) (names : List String) :
    Decreases (namedStep errCheck names) (fun s => s.params.length) := by
  intro s next round
  change next.params.length < s.params.length
  unfold namedStep at round
  split at round
  · cases round
  rename_i param rest present
  split at round
  · cases round
  split at round
  · cases round
  split at round
  · cases round
  split at round
  · cases round
    simp [present]
  dsimp only at round
  split at round
  · cases round
    simp [present]
  rename_i value others atValue
  have atRest : rest = value :: others := by simpa [present] using atValue
  have shorter : next.params.length < s.nextParam.params.length := by
    have nonempty : s.nextParam.params ≠ [] := by simp [present, atRest]
    split at round
    · simpa using fillNamed_decreases (by simpa using nonempty) round
    split at round
    · exact default_decreases
        (fun filled same => same ▸ Filling.length_tail_markOptFlag_lt filled false
          (same ▸ nonempty)) round
    split at round
    · cases round
    · cases round
      simp [present, atRest]
  simp only [Filling.params_nextParam, present, tail_cons] at shorter ⊢
  exact Nat.lt_succ_of_lt shorter

def positionalLoop (errCheck : Bool) (positionalArgs : Nat) (s : Filling) :
    Except String AfterPositionals :=
  run (positionalStep errCheck positionalArgs) (fun s => s.params.length)
    (positionalStep_decreases errCheck positionalArgs) s

def namedLoop (errCheck : Bool) (names : List String) (s : Filling) : Except String Filling :=
  run (namedStep errCheck names) (fun s => s.params.length) (namedStep_decreases errCheck names) s

/-- A machine integer read as a C `int`. -/
def toCInt (n : Nat) : Int :=
  (n : Int).bmod 4294967296

/-- `named_argument_arity_error`, which always throws. -/
def namedArgumentArityError (names : List String) (s : Filling) : String :=
  match s.used with
  | none =>
    let passed := toCInt names.length
    s!"too many named arguments: {passed} passed, 0 used"
  | some used =>
    match names.find? fun name => !decide (some name ∈ used) with
    | some name => s!"too many named arguments: '{name}' not used"
    | none => "Invalid named arguments, unspecified error"

/-- The test that all named arguments were assigned to parameters. -/
def checkNamed (errCheck : Bool) (names : List String) (s : Filling) : Except String (List Store) :=
  if errCheck && names != [] &&
      (s.used.isNone || decide (toCInt names.length > (s.namedCount : Int))) then
    .error (namedArgumentArityError names s)
  else .ok s.stores

/-- The two loops and the tests after them. -/
def fillLoops (errCheck : Bool) (positionalArgs : Nat) (names : List String)
    (params : List RawParam) (stores : List Store) : Except String (List Store) := do
  match ← positionalLoop errCheck positionalArgs (.start params stores) with
  | .returned stores => .ok stores
  | .namedLoop s =>
    if errCheck && decide (s.argIndex < positionalArgs) then
      let expected := s.argIndex
      .error (s!"too many positional arguments: {positionalArgs} passed, " ++
        s!"{expected} expected")
    else do
      let s ← namedLoop errCheck names s
      checkNamed errCheck names s

/-- The store of a last parameter that is `:call_sig`, in a list of one or two
places. -/
def callSigStore (params : List RawParam) : List Store :=
  if params.length > 2 then []
  else
    match params.getLast? with
    | none => []
    | some last =>
      if last.has argCallSig then [(params.length - 1, .callObject)] else []

/-- What it writes to the places of a raw signature, or the message it throws. -/
def fillParams (errCheck : Bool) (callObject : Option CallContext)
    (params : List RawParam) : Except String (List Store) :=
  let stores := callSigStore params
  match callObject with
  | none =>
    if params.length = 0 then .ok []
    else if errCheck then
      let expected := params.length
      .error s!"too few arguments: 0 passed, {expected} expected"
    else if stores ≠ [] ∧ params.length = 1 then .ok stores
    else fillLoops errCheck 0 [] params stores
  | some call =>
    if stores ≠ [] ∧ params.length = 1 then .ok stores
    else fillLoops errCheck call.positionals call.names params stores

/-- Whether a parameter must be filled; an optional one may have an option
flag behind it. -/
inductive Presence
  | required
  | optional (optFlag : Bool)
  deriving DecidableEq, Repr

/-- A parameter of a well-formed list. -/
inductive Param
  | positional (type : ParamType) (presence : Presence)
  | slurpy
  | named (name : String) (constant : Bool) (type : ParamType) (presence : Presence)
  | namedSlurpy
  deriving DecidableEq, Repr

/-- The place of an option flag, an `INTVAL`. -/
def optFlagPlace : RawParam :=
  { flags := argOptFlag, name := none }

def valuePlace (type : ParamType) : Presence → RawParam
  | .required => { flags := type.bits, name := none }
  | .optional _ => { flags := type.bits ||| argOptional, name := none }

def flagPlaces : Presence → List RawParam
  | .optional true => [optFlagPlace]
  | _ => []

/-- The places of a value, its option flag included. -/
def rawValue (type : ParamType) (presence : Presence) : List RawParam :=
  valuePlace type presence :: flagPlaces presence

/-- The place of a name, read from a constant or from a register. -/
def rawName (name : String) (constant : Bool) : RawParam :=
  { flags := argName ||| argString ||| (if constant then argConstant else 0), name := some name }

/-- The places of a positional slurpy. -/
def rawSlurpy : RawParam :=
  { flags := argPmc ||| argSlurpyArray, name := none }

def rawNamedSlurpy : RawParam :=
  { flags := argPmc ||| argSlurpyArray ||| argName, name := none }

namespace Param

/-- The places of a parameter in a raw signature. -/
def raw : Param → List RawParam
  | .positional type presence => rawValue type presence
  | .slurpy => [rawSlurpy]
  | .named name constant type presence => rawName name constant :: rawValue type presence
  | .namedSlurpy => [rawNamedSlurpy]

def names : Param → List String
  | .named name _ _ _ => [name]
  | _ => []

end Param

/-- A positional parameter that must be filled. -/
def requiredParam (type : ParamType) : Param :=
  .positional type .required

/-- A positional parameter that need not be. -/
def optionalParam (entry : ParamType × Bool) : Param :=
  .positional entry.1 (.optional entry.2)

structure NamedParam where
  name : String
  constant : Bool
  type : ParamType
  presence : Presence
  deriving DecidableEq, Repr

/-- Its entry in the list. -/
def NamedParam.param (param : NamedParam) : Param :=
  .named param.name param.constant param.type param.presence

/-- A well-formed parameter list; a name belongs to one parameter. -/
structure ParamList where
  required : List ParamType
  optionals : List (ParamType × Bool)
  slurpy : Bool
  nameds : List NamedParam
  namedSlurpy : Bool
  distinct : (nameds.map NamedParam.name).Nodup

namespace ParamList

/-- The parameters that take their arguments by position only. -/
def positionals (list : ParamList) : List Param :=
  list.required.map requiredParam ++ list.optionals.map optionalParam

def slurpyPart (list : ParamList) : List Param :=
  if list.slurpy then [.slurpy] else []

def namedSlurpyPart (list : ParamList) : List Param :=
  if list.namedSlurpy then [.namedSlurpy] else []

def params (list : ParamList) : List Param :=
  list.positionals ++ (list.slurpyPart ++
    (list.nameds.map NamedParam.param ++ list.namedSlurpyPart))

def raw (list : ParamList) : List RawParam :=
  list.params.flatMap Param.raw

def names (list : ParamList) : List String :=
  list.nameds.map NamedParam.name

end ParamList

/-- What a parameter receives. -/
inductive Received
  | argument (index : Nat)
  | namedArgument
  | nothing
  | rest (indices : List Nat)
  | namedRest (names : List String)
  deriving DecidableEq, Repr

def Received.positions : Received → List Nat
  | .argument index => [index]
  | .rest indices => indices
  | _ => []

namespace Param

/-- The named arguments a parameter takes up by receiving something. -/
def takes : Param → Received → List String
  | .named name _ _ _, .namedArgument => [name]
  | .namedSlurpy, .namedRest names => names
  | _, _ => []

/-- The writes of a value: itself, and the option flag in the place behind. -/
def valueWrites (place : Nat) (fill : Fill) (received : Bool) : Presence → List Store
  | .optional true => [(place, fill), (place + 1, .optFlag received)]
  | _ => [(place, fill)]

/-- What is written to a parameter's places, from the first of them. -/
def writes (place : Nat) : Param → Received → List Store
  | .positional type presence, .argument index =>
    valueWrites place (.positional type index) true presence
  | .positional type presence, .nothing => valueWrites place (.default type) false presence
  | .slurpy, .rest indices => [(place, .collectPositional indices)]
  | .named _ _ type presence, .argument index =>
    valueWrites (place + 1) (.positional type index) true presence
  | .named name _ type presence, .namedArgument =>
    valueWrites (place + 1) (.named type name) true presence
  | .named _ _ type presence, .nothing =>
    valueWrites (place + 1) (.default type) false presence
  | .namedSlurpy, .namedRest names => [(place, .collectNamed names)]
  | _, _ => []

end Param

/-- What a parameter may receive in a call. -/
inductive Accepts (call : CallContext) : Param → Received → Prop
  | positional (type presence index) : Accepts call (.positional type presence) (.argument index)
  | noPositional (type optFlag) : Accepts call (.positional type (.optional optFlag)) .nothing
  | slurpy (indices) : Accepts call .slurpy (.rest indices)
  | namedByPosition (name constant type presence index) :
      Accepts call (.named name constant type presence) (.argument index)
  | named (name constant type presence) :
      Accepts call (.named name constant type presence) .namedArgument
  | noNamed (name constant type optFlag) (absent : name ∉ call.names) :
      Accepts call (.named name constant type (.optional optFlag)) .nothing
  | namedSlurpy (names) : Accepts call .namedSlurpy (.namedRest names)

/-- Parameters receive positional arguments in order. -/
def InOrder (received : List Received) : Prop :=
  received.Pairwise fun earlier later =>
    later.positions ≠ [] → ∃ index, earlier = .argument index

/-- Every parameter accepts what it receives, and the call's arguments are used once, in order. -/
structure Exact (params : List Param) (call : CallContext) (received : List Received) : Prop where
  accepted : List.Forall₂ (Accepts call) params received
  positions : received.flatMap Received.positions = List.range call.positionals
  inOrder : InOrder received
  names : (List.zipWith Param.takes params received).flatten.Perm call.names

/-- The writes of an assignment, from the place of the first parameter on. -/
def writes : Nat → List Param → List Received → List Store
  | place, param :: params, received :: others =>
    param.writes place received ++ writes (place + param.raw.length) params others
  | _, _, _ => []

/-- `fill_params` carries out an exact assignment, or throws because there is none. -/
def PassesExactly (list : ParamList) (call : CallContext) : Prop :=
  match fillParams true (some call) list.raw with
  | .ok stores => ∃ received, Exact list.params call received ∧
      stores = writes 0 list.params received
  | .error _ => ¬ ∃ received, Exact list.params call received

end RakudoStar.Call
