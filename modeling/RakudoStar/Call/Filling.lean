import RakudoStar.Call.FillParams

/-!
# The loops carry out the plan

On a well-formed list the loops either throw or write the plan: the positional arguments go to
the parameters in order, and a parameter they do not reach gets the named argument of its name.
-/

namespace RakudoStar.Call

open Loop List

/-- Whether a parameter may be left empty. -/
def Presence.isOptional : Presence → Bool
  | .required => false
  | .optional _ => true

@[simp]
theorem valuePlace_flags (type : ParamType) (presence : Presence) :
    (valuePlace type presence).has argCallSig = false ∧
      (valuePlace type presence).has argSlurpyArray = false ∧
      (valuePlace type presence).has argName = false ∧
      (valuePlace type presence).has argOptFlag = false ∧
      (valuePlace type presence).has argOptional = presence.isOptional := by
  rcases presence with _ | (_ | _) <;> cases type <;> decide

@[simp]
theorem type_valuePlace (type : ParamType) (presence : Presence) :
    (valuePlace type presence).type = some type := by
  rcases presence with _ | (_ | _) <;> cases type <;> rfl

@[simp]
theorem rawName_flags (name : String) (constant : Bool) :
    (rawName name constant).has argCallSig = false ∧
      (rawName name constant).has argSlurpyArray = false ∧
      (rawName name constant).has argName = true ∧ (rawName name constant).has argString = true ∧
      (rawName name constant).has argOptional = false ∧
      (rawName name constant).has argOptFlag = false ∧
      (rawName name constant).name = some name := by
  cases constant <;>
    simp [RawParam.has, rawName, argName, argString, argConstant, argCallSig, argSlurpyArray,
      argOptional, argOptFlag]

@[simp]
theorem rawSlurpy_flags : rawSlurpy.has argCallSig = false ∧ rawSlurpy.has argSlurpyArray = true ∧
      rawSlurpy.has argName = false ∧ rawSlurpy.has argOptFlag = false := by
  decide

@[simp]
theorem rawNamedSlurpy_flags :
    rawNamedSlurpy.has argCallSig = false ∧ rawNamedSlurpy.has argSlurpyArray = true ∧
      rawNamedSlurpy.has argName = true ∧ rawNamedSlurpy.has argOptFlag = false := by
  decide

@[simp]
theorem optFlagPlace_flags :
    optFlagPlace.has argOptFlag = true ∧ optFlagPlace.has argCallSig = false := by
  decide

/-- The next place is not an option flag. -/
def NoFlagAhead (places : List RawParam) : Prop :=
  ∀ place ∈ places.head?, place.has argOptFlag = false

theorem noFlagAhead_raw (params : List Param) : NoFlagAhead (params.flatMap Param.raw) := by
  cases params with
  | nil => simp [NoFlagAhead]
  | cons param params =>
    cases param <;> simp [NoFlagAhead, Param.raw, rawValue]

theorem has_callSig_raw (params : List Param) :
    ∀ place ∈ params.flatMap Param.raw, place.has argCallSig = false := by
  intro place member
  rcases mem_flatMap.mp member with ⟨param, _, inParam⟩
  have inValue : ∀ type presence, place ∈ rawValue type presence →
      place.has argCallSig = false := by
    intro type presence inValue
    rcases mem_cons.mp inValue with rfl | inFlag
    · simp
    unfold flagPlaces at inFlag
    split at inFlag
    · rw [mem_singleton.mp inFlag]
      exact optFlagPlace_flags.2
    · cases inFlag
  cases param with
  | positional type presence => exact inValue type presence inParam
  | slurpy => simp [mem_singleton.mp inParam]
  | named name constant type presence =>
    rcases mem_cons.mp inParam with rfl | inValuePart
    · simp
    · exact inValue type presence inValuePart
  | namedSlurpy => simp [mem_singleton.mp inParam]

/-- What a parameter is handed when the positional arguments before the index
are gone. -/
def planned (call : CallContext) (known : List String) (index : Nat) : Param → Received
  | .positional _ _ => if index < call.positionals then .argument index else .nothing
  | .slurpy => .rest (List.range' index (call.positionals - index))
  | .named name _ _ _ =>
    if index < call.positionals then .argument index
    else if name ∈ call.names then .namedArgument
    else .nothing
  | .namedSlurpy => .namedRest (call.names.filter fun name => decide (name ∉ known))

/-- The index of the next positional argument behind a parameter. -/
def nextIndex (call : CallContext) (index : Nat) : Param → Nat
  | .slurpy => max index call.positionals
  | .namedSlurpy => index
  | _ => index + 1

/-- What the parameters of a list are handed; `known` are the names of its
named parameters. -/
def plan (call : CallContext) (known : List String) : Nat → List Param → List Received
  | _, [] => []
  | index, param :: params =>
    planned call known index param :: plan call known (nextIndex call index param) params

/-- The index behind the parameters of a list. -/
def endIndex (call : CallContext) (index : Nat) (params : List Param) : Nat :=
  params.foldl (nextIndex call) index

theorem plan_append (call : CallContext) (known : List String) (index : Nat)
    (first second : List Param) : plan call known index (first ++ second) =
      plan call known index first ++ plan call known (endIndex call index first) second := by
  induction first generalizing index with
  | nil => rfl
  | cons param first ih =>
    rw [cons_append, plan, ih]
    rfl

@[simp]
theorem length_plan (call : CallContext) (known : List String) (index : Nat)
    (params : List Param) : (plan call known index params).length = params.length := by
  induction params generalizing index with
  | nil => rfl
  | cons param params ih => simp [plan, ih]

theorem writes_append (place : Nat) (first second : List Param)
    (received others : List Received) (lengths : first.length = received.length) :
    writes place (first ++ second) (received ++ others) = writes place first received ++
        writes (place + (first.flatMap Param.raw).length) second others := by
  induction first generalizing place received with
  | nil =>
    cases received with
    | nil => simp [writes]
    | cons _ _ => cases lengths
  | cons param first ih =>
    cases received with
    | nil => cases lengths
    | cons head received =>
      simp [writes, ih _ received (Nat.succ.inj lengths), Nat.add_assoc]

namespace Filling

/-- Step over parameters, having written what they receive. -/
def skip (s : Filling) (params : List Param) (received : List Received) : Filling :=
  { s with
    paramIndex := s.paramIndex + (params.flatMap Param.raw).length
    params := s.params.drop (params.flatMap Param.raw).length
    stores := s.stores ++ writes s.paramIndex params received }

/-- Names used one after another. -/
def useAll (s : Filling) : List String → Filling
  | [] => s
  | name :: names => ((s.markUsed (some name)).countNamed).useAll names

variable (s : Filling) (names : List String)

@[simp]
theorem isUsed_useAll (name : String) :
    (s.useAll names).isUsed name = (decide (name ∈ names) || s.isUsed name) := by
  induction names generalizing s with
  | nil => simp [useAll]
  | cons first names ih =>
    rw [useAll, ih]
    cases used : s.used <;>
      simp [isUsed, markUsed, countNamed, used, Bool.or_comm, Bool.or_left_comm, Bool.or_assoc]

@[simp]
theorem namedCount_useAll : (s.useAll names).namedCount = s.namedCount + names.length := by
  induction names generalizing s with
  | nil => rfl
  | cons first names ih =>
    rw [useAll, ih]
    simp [countNamed, markUsed]
    omega

@[simp]
theorem isNone_used_useAll :
    (s.useAll names).used.isNone = (decide (names = []) && s.used.isNone) := by
  induction names generalizing s with
  | nil => simp [useAll]
  | cons first names ih =>
    rw [useAll, ih]
    simp [countNamed, markUsed]

@[simp]
theorem stores_useAll : (s.useAll names).stores = s.stores := by
  induction names generalizing s with
  | nil => rfl
  | cons first names ih =>
    rw [useAll, ih]
    rfl

@[simp]
theorem paramIndex_useAll : (s.useAll names).paramIndex = s.paramIndex := by
  induction names generalizing s with
  | nil => rfl
  | cons first names ih =>
    rw [useAll, ih]
    rfl

end Filling

/-- A named slurpy collects what is not used, in the order of the call. -/
theorem collectNames_eq (s : Filling) (names : List String) (distinct : names.Nodup) :
    collectNames s names = (s.useAll (names.filter fun name => !s.isUsed name),
        names.filter fun name => !s.isUsed name) := by
  induction names generalizing s with
  | nil => rfl
  | cons name names ih =>
    rw [nodup_cons] at distinct
    by_cases used : s.isUsed name = true
    · rw [collectNames, if_pos used, ih s distinct.2]
      simp [used]
    have same : (names.filter fun other =>
        !((s.markUsed (some name)).countNamed).isUsed other) =
        names.filter fun other => !s.isUsed other := by
      apply filter_congr
      intro other member
      have differs : other ≠ name := fun equal => distinct.1 (equal ▸ member)
      have marked := Filling.isUsed_useAll s [name] other
      simp only [Filling.useAll] at marked
      simp [marked, differs]
    rw [collectNames, if_neg used, ih _ distinct.2, same]
    simp [used, Filling.useAll]

variable {s : Filling} {tail : List RawParam} {type : ParamType}

section

variable {n : Nat} {names : List String} {presence : Presence}

theorem pass_value (fill : Fill) (received : Bool)
    (atValue : s.params = rawValue type presence ++ tail) (noFlag : NoFlagAhead tail) :
    (if (valuePlace type presence).has argOptional then
        (s.store fill).markOptFlag received else s.store fill).nextParam = { s with
        paramIndex := s.paramIndex + (rawValue type presence).length
        params := tail
        stores := s.stores ++ Param.valueWrites s.paramIndex fill received presence } := by
  have behind : s.params.tail = flagPlaces presence ++ tail := by
    rw [atValue]
    rfl
  cases presence with
  | required =>
    simp [Presence.isOptional, Filling.nextParam, Filling.store, behind, flagPlaces, rawValue,
      Param.valueWrites]
  | optional optFlag =>
    cases optFlag with
    | false =>
      have behindTail : s.params.tail = tail := behind
      have unmarked : (s.store fill).markOptFlag received = s.store fill := by
        unfold Filling.markOptFlag
        rw [Filling.params_store, behindTail]
        cases tail with
        | nil => rfl
        | cons next others => simp [noFlag next rfl]
      rw [unmarked]
      simp [Filling.nextParam, Filling.store, behindTail, flagPlaces, rawValue, Param.valueWrites]
    | true =>
      have behindFlag : s.params.tail = optFlagPlace :: tail := behind
      simp [Presence.isOptional, Filling.markOptFlag, Filling.nextParam, Filling.store,
        behindFlag, flagPlaces, rawValue, Param.valueWrites]

theorem fillPositional_eq
    (atValue : s.params = rawValue type presence ++ tail) (noFlag : NoFlagAhead tail) :
    fillPositional (valuePlace type presence) s = .ok (.again { s with
        paramIndex := s.paramIndex + (rawValue type presence).length
        params := tail
        argIndex := s.argIndex + 1
        stores := s.stores ++
          Param.valueWrites s.paramIndex (.positional type s.argIndex) true presence }) := by
  have passed := pass_value (.positional type s.argIndex) true atValue noFlag
  have swapped : ∀ filled : Filling, filled.nextArg.nextParam = filled.nextParam.nextArg :=
    fun _ => rfl
  unfold fillPositional
  rw [type_valuePlace]
  dsimp only
  rw [swapped, passed]
  rfl

theorem fillNamed_eq {name : String}
    (atValue : s.params = rawValue type presence ++ tail) (noFlag : NoFlagAhead tail) :
    fillNamed (valuePlace type presence) name s = .ok (.again { s with
        paramIndex := s.paramIndex + (rawValue type presence).length
        params := tail
        stores := s.stores ++
          Param.valueWrites s.paramIndex (.named type name) true presence }) := by
  have passed := pass_value (.named type name) true atValue noFlag
  unfold fillNamed
  rw [type_valuePlace]
  dsimp only
  rw [passed]

theorem assignDefault_eq {optFlag : Bool}
    (atValue : s.params = rawValue type (.optional optFlag) ++ tail) (noFlag : NoFlagAhead tail) :
    (assignDefaultParamValue (valuePlace type (.optional optFlag)) s).map
        (fun filled => (filled.markOptFlag false).nextParam) = .ok { s with
        paramIndex := s.paramIndex + (rawValue type (.optional optFlag)).length
        params := tail
        stores := s.stores ++
          Param.valueWrites s.paramIndex (.default type) false (.optional optFlag) } := by
  have passed := pass_value (.default type) false atValue noFlag
  rw [if_pos (by simp [Presence.isOptional])] at passed
  unfold assignDefaultParamValue
  rw [type_valuePlace]
  exact congrArg Except.ok passed

end

section

variable {call : CallContext} {param : NamedParam}

theorem positionalLoop_argument {presence : Presence}
    (atParam : s.params = (Param.positional type presence).raw ++ tail)
    (noFlag : NoFlagAhead tail) (noNamed : s.namedCount = 0)
    (reached : s.argIndex < call.positionals) : positionalLoop true call.positionals s =
      positionalLoop true call.positionals
        (s.skip [.positional type presence] [.argument s.argIndex]).nextArg := by
  apply run_again
  have atValue : s.params = valuePlace type presence :: (flagPlaces presence ++ tail) := atParam
  unfold positionalStep
  rw [atValue]
  simp only [valuePlace_flags, Bool.false_eq_true, if_false, if_pos reached, noNamed,
    Nat.lt_irrefl, gt_iff_lt]
  rw [fillPositional_eq atParam noFlag]
  simp [Filling.skip, Filling.nextArg, writes, Param.writes, Param.raw, atParam]

theorem positionalLoop_default {optFlag : Bool}
    (atParam : s.params = (Param.positional type (.optional optFlag)).raw ++ tail)
    (noFlag : NoFlagAhead tail) (spent : call.positionals ≤ s.argIndex) :
    positionalLoop true call.positionals s = positionalLoop true call.positionals
        (s.skip [.positional type (.optional optFlag)] [.nothing]).nextArg := by
  apply run_again
  have atValue : s.params =
      valuePlace type (.optional optFlag) :: (flagPlaces (.optional optFlag) ++ tail) := atParam
  have assigned := assignDefault_eq atParam noFlag
  rcases Except.map_eq_ok_iff.mp assigned with ⟨filled, filledEq, passed⟩
  unfold positionalStep
  rw [atValue]
  simp only [valuePlace_flags, Bool.false_eq_true, if_false, Nat.not_lt.mpr spent,
    Presence.isOptional, if_true, filledEq, Except.ok_bind]
  have swapped : (filled.markOptFlag false).nextArg.nextParam =
      (filled.markOptFlag false).nextParam.nextArg := rfl
  rw [swapped, passed]
  simp [Filling.skip, Filling.nextArg, writes, Param.writes, Param.raw, atParam]

theorem positionalLoop_tooFew (atParam : s.params = (Param.positional type .required).raw ++ tail)
    (spent : call.positionals ≤ s.argIndex) :
    ∃ message, positionalLoop true call.positionals s = .error message := by
  have atValue : s.params = valuePlace type .required :: tail := atParam
  have stepped : ∃ message, positionalStep true call.positionals s = .error message := by
    unfold positionalStep
    rw [atValue]
    simp [Nat.not_lt.mpr spent, Presence.isOptional]
  rcases stepped with ⟨message, stepped⟩
  exact ⟨message, run_error stepped⟩

theorem positionalLoop_named
    (atParam : s.params = param.param.raw ++ tail) (noFlag : NoFlagAhead tail)
    (reached : s.argIndex < call.positionals) : positionalLoop true call.positionals s =
      positionalLoop true call.positionals
        ((s.skip [param.param] [.argument s.argIndex]).useAll [param.name]).nextArg := by
  apply run_again
  have atName : s.params = rawName param.name param.constant ::
      (rawValue param.type param.presence ++ tail) := atParam
  have atValue : (s.countNamed.nextParam.markUsed (some param.name)).params =
      rawValue param.type param.presence ++ tail := by
    simp [atName]
  unfold positionalStep
  rw [atName]
  simp only [rawName_flags, Bool.false_eq_true, if_false, if_true, if_pos reached,
    Filling.params_nextParam, Filling.params_countNamed, atName, tail_cons, rawValue,
    cons_append, Bool.not_true]
  rw [fillPositional_eq atValue noFlag]
  simp [Filling.skip, Filling.nextArg, Filling.useAll, Filling.markUsed, Filling.countNamed,
    Filling.nextParam, writes, Param.writes, Param.raw, rawValue, atName, NamedParam.param]
  omega

theorem positionalLoop_leave_named
    (atParam : s.params = param.param.raw ++ tail) (spent : call.positionals ≤ s.argIndex) :
    positionalLoop true call.positionals s = .ok (.namedLoop s) := by
  apply run_leave
  have atName : s.params = rawName param.name param.constant ::
      (rawValue param.type param.presence ++ tail) := atParam
  unfold positionalStep
  rw [atName]
  simp [Nat.not_lt.mpr spent]

theorem positionalLoop_slurpy (known : List String) (atParam : s.params = rawSlurpy :: tail)
    (noNamed : s.namedCount = 0) : positionalLoop true call.positionals s =
      .ok (.namedLoop { s.skip [.slurpy] [planned call known s.argIndex .slurpy] with
        argIndex := max s.argIndex call.positionals }) := by
  apply run_leave
  unfold positionalStep
  rw [atParam]
  simp [noNamed, Filling.skip, Filling.store, Filling.nextParam, atParam, Param.raw, writes,
    Param.writes, planned]

theorem positionalLoop_leave_end (named : Bool)
    (atEnd : s.params = (if named then [Param.namedSlurpy] else []).flatMap Param.raw) :
    positionalLoop true call.positionals s = .ok (.namedLoop s) := by
  apply run_leave
  unfold positionalStep
  rw [atEnd]
  cases named <;> simp [Param.raw]

end

end RakudoStar.Call
