import RakudoStar.Call.Filling

/-!
# What the loops come to

The loops reject a call when an argument is missing or left over; otherwise `fill_params` comes
to its last test with the plan written and every used name marked and counted.
-/

namespace RakudoStar.Call

open Loop List

/-- The loops stepped over parameters, wrote what they receive, and used names. -/
structure Passed (s after : Filling) (params : List Param) (received : List Received)
    (names : List String) : Prop where
  paramIndex : after.paramIndex = s.paramIndex + (params.flatMap Param.raw).length
  behind : s.params.drop (params.flatMap Param.raw).length = after.params
  stores : after.stores = s.stores ++ writes s.paramIndex params received
  lengths : params.length = received.length
  namedCount : after.namedCount = s.namedCount + names.length
  isUsed : ∀ name, after.isUsed name = (decide (name ∈ names) || s.isUsed name)
  isNone : after.used.isNone = (decide (names = []) && s.used.isNone)

namespace Passed

variable {s middle after : Filling} {params others : List Param}
  {received more : List Received} {names further : List String}

theorem refl (s : Filling) : Passed s s [] [] [] := by
  constructor <;> simp [writes]

theorem trans (first : Passed s middle params received names)
    (second : Passed middle after others more further) :
    Passed s after (params ++ others) (received ++ more) (names ++ further) := by
  constructor
  · rw [second.paramIndex, first.paramIndex]
    simp [Nat.add_assoc]
  · rw [← second.behind, ← first.behind]
    simp
  · rw [second.stores, first.stores, first.paramIndex, writes_append _ _ _ _ _ first.lengths]
    simp
  · simp [first.lengths, second.lengths]
  · rw [second.namedCount, first.namedCount]
    simp [Nat.add_assoc]
  · intro name
    rw [second.isUsed, first.isUsed]
    simp [Bool.or_assoc, Bool.or_left_comm]
  · rw [second.isNone, first.isNone]
    simp [Bool.and_assoc, Bool.and_left_comm]

theorem skip (s : Filling) (param : Param) (received : Received) :
    Passed s (s.skip [param] [received]) [param] [received] [] := by
  constructor <;> simp [Filling.skip, Filling.isUsed]

theorem withArg (passed : Passed s after params received names) (argIndex : Nat) :
    Passed s { after with argIndex := argIndex } params received names :=
  ⟨passed.paramIndex, passed.behind, passed.stores, passed.lengths, passed.namedCount,
    passed.isUsed, passed.isNone⟩

end Passed

variable {params : List Param} {after : Filling}

theorem Passed.nextArg (passed : Passed s after params received names) :
    Passed s after.nextArg params received names :=
  passed.withArg (after.argIndex + 1)

theorem Passed.useOne (passed : Passed s after params received names) (name : String) :
    Passed s (after.useAll [name]) params received (names ++ [name]) := by
  constructor
  · exact passed.paramIndex
  · exact passed.behind
  · exact passed.stores
  · exact passed.lengths
  · rw [Filling.namedCount_useAll, passed.namedCount]
    simp [Nat.add_assoc]
  · intro other
    rw [Filling.isUsed_useAll, passed.isUsed]
    simp [Bool.or_assoc, Bool.or_left_comm]
  · simp

variable {call : CallContext} {tail : List RawParam}

section

variable (known : List String) (types : List ParamType)

/-- The positional loop passes over a parameter as planned. -/
def PassesOver (call : CallContext) (known : List String) (ready : Filling → Prop) (s : Filling)
    (param : Param) : Prop :=
  ∃ after, positionalLoop true call.positionals s = positionalLoop true call.positionals after ∧
    Passed s after [param] [planned call known s.argIndex param] param.names ∧
    after.argIndex = s.argIndex + 1 ∧ ready after

theorem noFlagAhead_append (noFlag : NoFlagAhead tail) :
    NoFlagAhead (params.flatMap Param.raw ++ tail) := by
  have inParams := noFlagAhead_raw params
  cases places : params.flatMap Param.raw with
  | nil => exact noFlag
  | cons place others =>
    rw [places] at inParams
    simpa [NoFlagAhead] using inParams

/-- A group that the loop passes over one by one; the induction is on the group. -/
theorem positionalLoop_group (ready : Filling → Prop) (bound : Nat) (params : List Param)
    (single : ∀ param ∈ params, ∀ index, nextIndex call index param = index + 1)
    (round : ∀ param ∈ params, ∀ (s : Filling) (tail : List RawParam),
      s.params = param.raw ++ tail → NoFlagAhead tail → ready s → s.argIndex < bound →
        PassesOver call known ready s param)
    (atParams : s.params = params.flatMap Param.raw ++ tail) (noFlag : NoFlagAhead tail)
    (isReady : ready s) (enough : ∀ offset < params.length, s.argIndex + offset < bound) :
    ∃ after, positionalLoop true call.positionals s = positionalLoop true call.positionals after ∧
      Passed s after params (plan call known s.argIndex params) (params.flatMap Param.names) ∧
      after.argIndex = s.argIndex + params.length ∧ ready after := by
  induction params generalizing s with
  | nil => exact ⟨s, rfl, Passed.refl s, rfl, isReady⟩
  | cons param params ih =>
    have atHead : s.params = param.raw ++ (params.flatMap Param.raw ++ tail) := by
      rw [atParams]
      simp
    rcases round param mem_cons_self s _ atHead (noFlagAhead_append noFlag) isReady
        (enough 0 (Nat.succ_pos _)) with ⟨middle, first, passedFirst, indexFirst, readyMiddle⟩
    have atRest : middle.params = params.flatMap Param.raw ++ tail := by
      rw [← passedFirst.behind, atHead]
      simp
    rcases ih
        (forall_mem_cons.mp single).2
        (forall_mem_cons.mp round).2 atRest readyMiddle
        (fun offset below => by
          have further := enough (offset + 1) (Nat.succ_lt_succ below)
          omega) with ⟨after, second, passedRest, indexRest, readyAfter⟩
    refine ⟨after, first.trans second, ?_, ?_, readyAfter⟩
    · have both := passedFirst.trans passedRest
      rw [indexFirst, ← single param mem_cons_self s.argIndex] at both
      exact both
    · rw [indexRest, indexFirst, length_cons]
      omega

/-- What positional parameters need: no named parameter went before. -/
def NoNamed (s : Filling) : Prop :=
  s.namedCount = 0

theorem passesOver_required (type : ParamType)
    (atParam : s.params = (requiredParam type).raw ++ tail) (noFlag : NoFlagAhead tail)
    (noNamed : NoNamed s) (reached : s.argIndex < call.positionals) :
    PassesOver call known NoNamed s (requiredParam type) := by
  refine ⟨_, positionalLoop_argument atParam noFlag noNamed reached, ?_, rfl, noNamed⟩
  have passed := (Passed.skip s (requiredParam type) (.argument s.argIndex)).nextArg
  simpa [planned, requiredParam, reached, Param.names] using passed

theorem passesOver_optional (entry : ParamType × Bool)
    (atParam : s.params = (optionalParam entry).raw ++ tail) (noFlag : NoFlagAhead tail)
    (noNamed : NoNamed s) : PassesOver call known NoNamed s (optionalParam entry) := by
  by_cases reached : s.argIndex < call.positionals
  · refine ⟨_, positionalLoop_argument atParam noFlag noNamed reached, ?_, rfl, noNamed⟩
    have passed := (Passed.skip s (optionalParam entry) (.argument s.argIndex)).nextArg
    simpa [planned, optionalParam, reached, Param.names] using passed
  refine ⟨_, positionalLoop_default atParam noFlag (Nat.le_of_not_lt reached), ?_, rfl, noNamed⟩
  have passed := (Passed.skip s (optionalParam entry) .nothing).nextArg
  simpa [planned, optionalParam, reached, Param.names] using passed

theorem passesOver_named (param : NamedParam) (atParam : s.params = param.param.raw ++ tail)
    (noFlag : NoFlagAhead tail) (reached : s.argIndex < call.positionals) :
    PassesOver call known (fun _ => True) s param.param := by
  refine ⟨_, positionalLoop_named atParam noFlag reached, ?_, rfl, trivial⟩
  have passed := ((Passed.skip s param.param (.argument s.argIndex)).useOne param.name).nextArg
  simpa [planned, NamedParam.param, reached, Param.names] using passed

theorem positionalLoop_required
    (atParams : s.params = (types.map requiredParam).flatMap Param.raw ++ tail)
    (noFlag : NoFlagAhead tail) (noNamed : NoNamed s)
    (enough : s.argIndex + types.length ≤ call.positionals) :
    ∃ after, positionalLoop true call.positionals s = positionalLoop true call.positionals after ∧
      Passed s after (types.map requiredParam)
        (plan call known s.argIndex (types.map requiredParam))
        ((types.map requiredParam).flatMap Param.names) ∧
      after.argIndex = s.argIndex + (types.map requiredParam).length ∧ NoNamed after := by
  apply positionalLoop_group known NoNamed call.positionals _ _ _ atParams noFlag noNamed
  · intro offset below
    rw [length_map] at below
    omega
  · intro param member index
    rcases mem_map.mp member with ⟨type, _, rfl⟩
    rfl
  · intro param member s tail atParam noFlag noNamed reached
    rcases mem_map.mp member with ⟨type, _, rfl⟩
    exact passesOver_required known type atParam noFlag noNamed reached

theorem exists_split_at {α : Type} (values : List α) {bound : Nat}
    (longer : bound < values.length) :
    ∃ front value back, values = front ++ value :: back ∧ front.length = bound := by
  cases behind : values.drop bound with
  | nil => exact absurd (drop_eq_nil_iff.mp behind) (Nat.not_le.mpr longer)
  | cons value back =>
    exact ⟨values.take bound, value, back, behind ▸ (take_append_drop bound values).symm,
      length_take_of_le (Nat.le_of_lt longer)⟩

/-- The loop throws in a group with more required parameters than arguments. -/
theorem positionalLoop_missing
    (atParams : s.params = (types.map requiredParam).flatMap Param.raw ++ tail)
    (noNamed : NoNamed s) (before : s.argIndex ≤ call.positionals)
    (missing : call.positionals < s.argIndex + types.length) :
    ∃ message, positionalLoop true call.positionals s = .error message := by
  have longer : call.positionals - s.argIndex < types.length := by omega
  rcases exists_split_at types longer with ⟨front, type, others, rfl, length⟩
  have atGroup : s.params = (front.map requiredParam).flatMap Param.raw ++
      ((requiredParam type).raw ++ ((others.map requiredParam).flatMap Param.raw ++ tail)) := by
    rw [atParams]
    simp
  have noFlagGroup : NoFlagAhead ((requiredParam type).raw ++
      ((others.map requiredParam).flatMap Param.raw ++ tail)) := by
    simp [NoFlagAhead, requiredParam, Param.raw, rawValue]
  have enough : s.argIndex + front.length = call.positionals := by omega
  rcases positionalLoop_required [] front atGroup noFlagGroup noNamed
      (Nat.le_of_eq enough) with ⟨after, ran, passed, index, _⟩
  rw [ran]
  have atType : after.params = (requiredParam type).raw ++
      ((others.map requiredParam).flatMap Param.raw ++ tail) := by
    rw [← passed.behind, atGroup]
    simp
  apply positionalLoop_tooFew atType
  rw [index, length_map]
  exact Nat.le_of_eq enough.symm

theorem positionalLoop_optionals (entries : List (ParamType × Bool))
    (atParams : s.params = (entries.map optionalParam).flatMap Param.raw ++ tail)
    (noFlag : NoFlagAhead tail) (noNamed : NoNamed s) :
    ∃ after, positionalLoop true call.positionals s = positionalLoop true call.positionals after ∧
      Passed s after (entries.map optionalParam)
        (plan call known s.argIndex (entries.map optionalParam))
        ((entries.map optionalParam).flatMap Param.names) ∧
      after.argIndex = s.argIndex + (entries.map optionalParam).length ∧ NoNamed after := by
  apply positionalLoop_group known NoNamed (s.argIndex + (entries.map optionalParam).length)
    _ _ _ atParams noFlag noNamed
    (fun offset below => Nat.add_lt_add_left below s.argIndex)
  · intro param member index
    rcases mem_map.mp member with ⟨entry, _, rfl⟩
    rfl
  intro param member s tail atParam noFlag noNamed _
  rcases mem_map.mp member with ⟨entry, _, rfl⟩
  exact passesOver_optional known entry atParam noFlag noNamed

theorem positionalLoop_nameds (nameds : List NamedParam)
    (atParams : s.params = (nameds.map NamedParam.param).flatMap Param.raw ++ tail)
    (noFlag : NoFlagAhead tail)
    (enough : ∀ offset < nameds.length, s.argIndex + offset < call.positionals) :
    ∃ after, positionalLoop true call.positionals s = positionalLoop true call.positionals after ∧
      Passed s after (nameds.map NamedParam.param)
        (plan call known s.argIndex (nameds.map NamedParam.param))
        ((nameds.map NamedParam.param).flatMap Param.names) ∧
      after.argIndex = s.argIndex + (nameds.map NamedParam.param).length ∧ True := by
  apply positionalLoop_group known (fun _ => True) call.positionals _ _ _ atParams
    noFlag trivial
  · simpa using enough
  · intro param member index
    rcases mem_map.mp member with ⟨named, _, rfl⟩
    rfl
  · intro param member s tail atParam noFlag _ reached
    rcases mem_map.mp member with ⟨named, _, rfl⟩
    exact passesOver_named known named atParam noFlag reached

end

section

variable (known : List String) {index : Nat} (nameds : List NamedParam)

def PassesNamed (call : CallContext) (s : Filling) (param : NamedParam) (received : Received)
    (names : List String) : Prop :=
  ∃ after, namedLoop true call.names s = namedLoop true call.names after ∧
    Passed s after [param.param] [received] names

theorem passesNamed_passed (param : NamedParam) (atParam : s.params = param.param.raw ++ tail)
    (noFlag : NoFlagAhead tail) (passed : param.name ∈ call.names) :
    PassesNamed call s param .namedArgument [param.name] := by
  have atName : s.params = rawName param.name param.constant ::
      (rawValue param.type param.presence ++ tail) := atParam
  have atValue : (s.nextParam.useAll [param.name]).params =
      rawValue param.type param.presence ++ tail := by
    simp [Filling.useAll, atName]
  refine ⟨(s.skip [param.param] [.namedArgument]).useAll [param.name], ?_,
    (Passed.skip s param.param .namedArgument).useOne param.name⟩
  apply run_again
  unfold namedStep
  rw [atName]
  simp only [rawName_flags, Bool.false_eq_true, if_false, Bool.not_true, Filling.params_nextParam,
    atName, tail_cons, rawValue, cons_append, if_pos passed]
  have named := @fillNamed_eq _ _ _ _ param.name atValue noFlag
  rw [Filling.useAll, Filling.useAll] at named
  rw [named]
  simp [Filling.skip, Filling.useAll, Filling.markUsed, Filling.countNamed, Filling.nextParam,
    writes, Param.writes, Param.raw, rawValue, atName, NamedParam.param]
  omega

theorem passesNamed_absent (param : NamedParam) (atParam : s.params = param.param.raw ++ tail)
    (noFlag : NoFlagAhead tail) (absent : param.name ∉ call.names) {optFlag : Bool}
    (optional : param.presence = .optional optFlag) : PassesNamed call s param .nothing [] := by
  have atName : s.params = rawName param.name param.constant ::
      (rawValue param.type (.optional optFlag) ++ tail) := optional ▸ atParam
  have atValue : s.nextParam.params = rawValue param.type (.optional optFlag) ++ tail := by
    simp [atName]
  refine ⟨s.skip [param.param] [.nothing], ?_, Passed.skip s param.param .nothing⟩
  apply run_again
  rcases Except.map_eq_ok_iff.mp (assignDefault_eq atValue noFlag) with ⟨filled, filledEq, passed⟩
  unfold namedStep
  rw [atName]
  simp only [rawName_flags, Bool.false_eq_true, if_false, Bool.not_true, Filling.params_nextParam,
    atName, tail_cons, rawValue, cons_append, if_neg absent, valuePlace_flags,
    Presence.isOptional, if_true, filledEq, Except.ok_bind, passed]
  simp [Filling.skip, Filling.nextParam, writes, Param.writes, Param.raw, rawValue, atName,
    NamedParam.param, optional]
  omega

theorem namedLoop_tooFew (param : NamedParam) (atParam : s.params = param.param.raw ++ tail)
    (required : param.presence = .required) (absent : param.name ∉ call.names) :
    ∃ message, namedLoop true call.names s = .error message := by
  have atName : s.params = rawName param.name param.constant ::
      valuePlace param.type .required :: tail := by
    simp [atParam, NamedParam.param, Param.raw, rawValue, required, flagPlaces]
  have stepped : ∃ message, namedStep true call.names s = .error message := by
    unfold namedStep
    rw [atName]
    simp [atName, absent, Presence.isOptional]
  rcases stepped with ⟨message, stepped⟩
  exact ⟨message, run_error stepped⟩

/-- A named parameter that neither a position nor a name can fill. -/
def NamedParam.Missing (call : CallContext) (param : NamedParam) : Prop :=
  param.presence = .required ∧ param.name ∉ call.names

theorem passesNamed_planned (param : NamedParam)
    (spent : call.positionals ≤ index) (atParam : s.params = param.param.raw ++ tail)
    (noFlag : NoFlagAhead tail) (found : ¬ param.Missing call) :
    PassesNamed call s param (planned call known index param.param)
      (([param].filter fun param => decide (param.name ∈ call.names)).map NamedParam.name) := by
  by_cases passed : param.name ∈ call.names
  · have round := passesNamed_passed param atParam noFlag passed
    simpa [planned, NamedParam.param, Nat.not_lt.mpr spent, passed] using round
  cases presence : param.presence with
  | required => exact absurd ⟨presence, passed⟩ found
  | optional optFlag =>
    have round := passesNamed_absent param atParam noFlag passed presence
    simpa [planned, NamedParam.param, Nat.not_lt.mpr spent, passed] using round

theorem namedLoop_group (spent : call.positionals ≤ index)
    (atParams : s.params = (nameds.map NamedParam.param).flatMap Param.raw ++ tail)
    (noFlag : NoFlagAhead tail) (found : ∀ param ∈ nameds, ¬ param.Missing call) :
    ∃ after, namedLoop true call.names s = namedLoop true call.names after ∧
      Passed s after (nameds.map NamedParam.param)
        (plan call known index (nameds.map NamedParam.param))
        ((nameds.filter fun param => decide (param.name ∈ call.names)).map NamedParam.name) := by
  induction nameds generalizing s index with
  | nil => exact ⟨s, rfl, Passed.refl s⟩
  | cons param nameds ih =>
    have atHead : s.params = param.param.raw ++
        ((nameds.map NamedParam.param).flatMap Param.raw ++ tail) := by
      rw [atParams]
      simp
    rcases passesNamed_planned known param spent atHead (noFlagAhead_append noFlag)
        (found param mem_cons_self) with ⟨middle, first, passedFirst⟩
    have atRest : middle.params = (nameds.map NamedParam.param).flatMap Param.raw ++ tail := by
      rw [← passedFirst.behind, atHead]
      simp
    rcases ih (Nat.le_succ_of_le spent) atRest (forall_mem_cons.mp found).2 with
      ⟨after, second, passedRest⟩
    refine ⟨after, first.trans second, ?_⟩
    have both := passedFirst.trans passedRest
    rw [← map_append, ← filter_append] at both
    exact both

/-- The loop throws when a named parameter is missing, behind those it passes over. -/
theorem namedLoop_missing
    (atParams : s.params = (nameds.map NamedParam.param).flatMap Param.raw ++ tail)
    (noFlag : NoFlagAhead tail) (missing : ∃ param ∈ nameds, param.Missing call) :
    ∃ message, namedLoop true call.names s = .error message := by
  induction nameds generalizing s with
  | nil =>
    rcases missing with ⟨_, member, _⟩
    cases member
  | cons param nameds ih =>
    have atHead : s.params = param.param.raw ++
        ((nameds.map NamedParam.param).flatMap Param.raw ++ tail) := by
      rw [atParams]
      simp
    by_cases here : param.Missing call
    · exact namedLoop_tooFew param atHead here.1 here.2
    rcases passesNamed_planned [] param (Nat.le_refl _) atHead
        (noFlagAhead_append noFlag) here with ⟨middle, first, passedFirst⟩
    have atRest : middle.params = (nameds.map NamedParam.param).flatMap Param.raw ++ tail := by
      rw [← passedFirst.behind, atHead]
      simp
    rw [first]
    apply ih atRest
    rcases missing with ⟨other, member, otherMissing⟩
    rcases mem_cons.mp member with rfl | inRest
    · exact absurd otherMissing here
    · exact ⟨other, inRest, otherMissing⟩

theorem namedLoop_end (atEnd : s.params = []) : namedLoop true call.names s = .ok s := by
  apply run_leave
  unfold namedStep
  rw [atEnd]

theorem namedLoop_slurpy (atSlurpy : s.params = [rawNamedSlurpy]) :
    let names := call.names.filter fun name => !s.isUsed name
    namedLoop true call.names s = .ok ((s.useAll names).store (.collectNamed names)) := by
  apply run_leave
  unfold namedStep
  rw [atSlurpy]
  simp [collectNames_eq s call.names call.distinct]

end

namespace ParamList

variable (list : ParamList) (call : CallContext)

/-- The named parameters that positional arguments reach. -/
def byPosition : List NamedParam :=
  if list.slurpy then []
  else list.nameds.take (call.positionals - list.positionals.length)

def byName : List NamedParam :=
  if list.slurpy then list.nameds
  else list.nameds.drop (call.positionals - list.positionals.length)

/-- The parameters up to those left to the named arguments. -/
def front : List Param :=
  list.positionals ++ (list.slurpyPart ++ (list.byPosition call).map NamedParam.param)

/-- The loops reject the call. -/
def Rejected : Prop :=
  call.positionals < list.required.length ∨
    (list.slurpy = false ∧ list.positionals.length + list.nameds.length < call.positionals) ∨
    ∃ param ∈ list.byName call, param.Missing call

/-- The names that the call's arguments and parameters use up. -/
def usedNames : List String :=
  (list.byPosition call).map NamedParam.name ++
    (((list.byName call).filter fun param => decide (param.name ∈ call.names)).map
        NamedParam.name ++
      if list.namedSlurpy then call.names.filter fun name => decide (name ∉ list.names)
      else [])

theorem byPosition_append_byName : list.byPosition call ++ list.byName call = list.nameds := by
  unfold byPosition byName
  split <;> simp

theorem byPosition_reached {offset : Nat} (below : offset < (list.byPosition call).length) :
    list.slurpy = false ∧ list.positionals.length + offset < call.positionals := by
  unfold byPosition at below
  split at below
  · cases below
  rename_i slurpy
  rw [length_take] at below
  exact ⟨Bool.eq_false_iff.mpr slurpy, by omega⟩

theorem params_eq : list.params =
    list.front call ++ ((list.byName call).map NamedParam.param ++ list.namedSlurpyPart) := by
  unfold params front
  rw [← list.byPosition_append_byName call]
  simp

end ParamList

section

variable {list : ParamList} (known : List String)

theorem endIndex_append (call : CallContext) (index : Nat) (first second : List Param) :
    endIndex call index (first ++ second) = endIndex call (endIndex call index first) second :=
  foldl_append

theorem endIndex_group (call : CallContext) (index : Nat) (params : List Param)
    (single : ∀ param ∈ params, ∀ index, nextIndex call index param = index + 1) :
    endIndex call index params = index + params.length := by
  induction params generalizing index with
  | nil => rfl
  | cons param params ih =>
    have step := ih (nextIndex call index param) (forall_mem_cons.mp single).2
    rw [single param mem_cons_self index] at step
    change endIndex call (nextIndex call index param) params = _
    rw [single param mem_cons_self index, step, length_cons]
    omega

theorem endIndex_positionals (call : CallContext) (list : ParamList) :
    endIndex call 0 list.positionals = list.positionals.length := by
  rw [endIndex_group, Nat.zero_add]
  intro param member index
  rcases mem_append.mp member with inRequired | inOptionals
  · rcases mem_map.mp inRequired with ⟨type, _, rfl⟩
    rfl
  · rcases mem_map.mp inOptionals with ⟨entry, _, rfl⟩
    rfl

theorem endIndex_nameds (call : CallContext) (index : Nat) (nameds : List NamedParam) :
    endIndex call index (nameds.map NamedParam.param) = index + nameds.length := by
  rw [endIndex_group, length_map]
  intro param member index
  rcases mem_map.mp member with ⟨named, _, rfl⟩
  rfl

theorem names_positionals (list : ParamList) : list.positionals.flatMap Param.names = [] := by
  rw [flatMap_eq_nil_iff]
  intro param member
  rcases mem_append.mp member with inRequired | inOptionals
  · rcases mem_map.mp inRequired with ⟨type, _, rfl⟩
    rfl
  · rcases mem_map.mp inOptionals with ⟨entry, _, rfl⟩
    rfl

theorem names_nameds (nameds : List NamedParam) :
    (nameds.map NamedParam.param).flatMap Param.names = nameds.map NamedParam.name := by
  induction nameds with
  | nil => rfl
  | cons param nameds ih =>
    rw [map_cons, flatMap_cons, ih]
    rfl

theorem positionalLoop_positionals
    (enough : list.required.length ≤ call.positionals) (atStart : s.argIndex = 0)
    (noNamed : NoNamed s) (noFlag : NoFlagAhead tail)
    (atParams : s.params = list.positionals.flatMap Param.raw ++ tail) :
    ∃ after, positionalLoop true call.positionals s = positionalLoop true call.positionals after ∧
      Passed s after list.positionals (plan call known 0 list.positionals) [] ∧
      after.argIndex = list.positionals.length ∧ NoNamed after := by
  have atRequired : s.params = (list.required.map requiredParam).flatMap Param.raw ++
      ((list.optionals.map optionalParam).flatMap Param.raw ++ tail) := by
    rw [atParams]
    simp [ParamList.positionals]
  have enoughHere : s.argIndex + list.required.length ≤ call.positionals := by omega
  rcases positionalLoop_required known list.required atRequired
      (noFlagAhead_append noFlag) noNamed enoughHere with
    ⟨middle, first, passedFirst, indexFirst, noNamedMiddle⟩
  have atOptionals : middle.params =
      (list.optionals.map optionalParam).flatMap Param.raw ++ tail := by
    rw [← passedFirst.behind, atRequired]
    simp
  rcases positionalLoop_optionals known list.optionals atOptionals noFlag
      noNamedMiddle with ⟨after, second, passedSecond, indexSecond, noNamedAfter⟩
  refine ⟨after, first.trans second, ?_, ?_, noNamedAfter⟩
  · have both := passedFirst.trans passedSecond
    have endRequired : endIndex call 0 (list.required.map requiredParam) = middle.argIndex := by
      rw [indexFirst, atStart]
      apply endIndex_group
      intro param member index
      rcases mem_map.mp member with ⟨type, _, rfl⟩
      rfl
    rw [← endRequired, atStart, ← plan_append] at both
    rw [← flatMap_append] at both
    exact (names_positionals list) ▸ both
  · rw [indexSecond, indexFirst, atStart]
    simp [ParamList.positionals]

theorem positionalLoop_list (enough : list.required.length ≤ call.positionals) :
    ∃ s, positionalLoop true call.positionals (.start list.raw []) = .ok (.namedLoop s) ∧
      Passed (.start list.raw []) s (list.front call) (plan call known 0 (list.front call))
        ((list.byPosition call).map NamedParam.name) ∧
      s.argIndex = endIndex call 0 (list.front call) := by
  have atParams : (Filling.start list.raw []).params = list.positionals.flatMap Param.raw ++
      (list.slurpyPart ++
        (list.nameds.map NamedParam.param ++ list.namedSlurpyPart)).flatMap Param.raw := by
    simp [Filling.start, ParamList.raw, ParamList.params]
  have noNamedStart : NoNamed (Filling.start list.raw []) := rfl
  rcases positionalLoop_positionals known enough rfl noNamedStart (noFlagAhead_raw _)
      atParams with ⟨middle, first, passed, index, noNamed⟩
  rw [first]
  have atRest := passed.behind
  rw [atParams, drop_left] at atRest
  by_cases slurpy : list.slurpy = true
  · have atSlurpy : middle.params = rawSlurpy ::
        (list.nameds.map NamedParam.param ++ list.namedSlurpyPart).flatMap Param.raw := by
      rw [← atRest]
      simp [ParamList.slurpyPart, slurpy, Param.raw]
    refine ⟨_, positionalLoop_slurpy known atSlurpy noNamed, ?_, ?_⟩
    · have collected := passed.trans ((Passed.skip middle .slurpy
        (planned call known middle.argIndex .slurpy)).withArg
          (max middle.argIndex call.positionals))
      rw [index, ← endIndex_positionals call list] at collected
      simpa [ParamList.front, ParamList.byPosition, slurpy, ParamList.slurpyPart, plan_append,
        plan, index, endIndex_positionals] using collected
    have endFront := endIndex_append call 0 list.positionals [.slurpy]
    rw [endIndex_positionals] at endFront
    simpa [ParamList.front, ParamList.byPosition, slurpy, ParamList.slurpyPart, index,
      endIndex, nextIndex] using endFront.symm
  · have atNameds : middle.params =
        ((list.byPosition call).map NamedParam.param).flatMap Param.raw ++
          ((list.byName call).map NamedParam.param ++ list.namedSlurpyPart).flatMap Param.raw := by
      rw [← atRest, ← list.byPosition_append_byName call]
      simp [ParamList.slurpyPart, slurpy]
    have reached : ∀ offset < (list.byPosition call).length,
        middle.argIndex + offset < call.positionals := by
      intro offset below
      rw [index]
      exact (list.byPosition_reached call below).2
    rcases positionalLoop_nameds known (list.byPosition call) atNameds
        (noFlagAhead_raw _) reached with ⟨after, second, passedNameds, indexNameds, _⟩
    rw [second]
    have atEnd := passedNameds.behind
    rw [atNameds, drop_left] at atEnd
    refine ⟨after, ?_, ?_, ?_⟩
    · cases left : list.byName call with
      | nil =>
        rw [left] at atEnd
        exact positionalLoop_leave_end list.namedSlurpy atEnd.symm
      | cons param others =>
        have atParam : after.params = param.param.raw ++
            (others.map NamedParam.param ++ list.namedSlurpyPart).flatMap Param.raw := by
          rw [← atEnd, left]
          simp
        apply positionalLoop_leave_named atParam
        have taken : (list.byPosition call).length =
            call.positionals - list.positionals.length := by
          rw [ParamList.byName, if_neg slurpy] at left
          have longer := congrArg length left
          rw [ParamList.byPosition, if_neg slurpy, length_take]
          simp only [length_drop, length_cons] at longer
          omega
        rw [indexNameds, length_map, taken, index]
        omega
    · have both := passed.trans passedNameds
      have startNameds : middle.argIndex = endIndex call 0 list.positionals := by
        rw [index, endIndex_positionals]
      rw [startNameds, ← plan_append, names_nameds] at both
      simpa [ParamList.front, ParamList.slurpyPart, slurpy] using both
    · rw [indexNameds, index, ParamList.front, endIndex_append, endIndex_positionals]
      simp [ParamList.slurpyPart, slurpy, endIndex_nameds]

theorem endIndex_front_lt_iff : endIndex call 0 (list.front call) < call.positionals ↔
      list.slurpy = false ∧ list.positionals.length + list.nameds.length < call.positionals := by
  rw [ParamList.front, endIndex_append, endIndex_positionals, endIndex_append]
  by_cases slurpy : list.slurpy = true
  · simp [ParamList.slurpyPart, slurpy, ParamList.byPosition, endIndex, nextIndex, Nat.le_max_right]
  simp only [ParamList.slurpyPart, slurpy, ParamList.byPosition, endIndex_nameds,
    Bool.false_eq_true, if_false, length_take, true_and]
  change list.positionals.length + _ < _ ↔ _
  omega

theorem callSigStore_raw (list : ParamList) : callSigStore list.raw = [] := by
  unfold callSigStore
  split
  · rfl
  split
  · rfl
  rename_i last found
  have member : last ∈ list.raw := mem_of_getLast? found
  rw [if_neg (by simp [has_callSig_raw list.params last member])]

theorem fillParams_raw (list : ParamList) (call : CallContext) :
    fillParams true (some call) list.raw =
      fillLoops true call.positionals call.names list.raw [] := by
  simp [fillParams, callSigStore_raw]

theorem fillLoops_eq (positional : positionalLoop true call.positionals (.start list.raw []) =
      .ok (.namedLoop s)) (fits : call.positionals ≤ s.argIndex) :
    fillLoops true call.positionals call.names list.raw [] =
      (namedLoop true call.names s >>= checkNamed true call.names) := by
  unfold fillLoops
  rw [positional]
  simp [Nat.not_lt.mpr fits]

theorem fillParams_of_rejected (rejected : list.Rejected call) :
    ∃ message, fillParams true (some call) list.raw = .error message := by
  rw [fillParams_raw]
  by_cases enough : list.required.length ≤ call.positionals
  · rcases positionalLoop_list [] enough with ⟨s, ran, passed, index⟩
    by_cases fits : call.positionals ≤ s.argIndex
    · rw [fillLoops_eq ran fits]
      have atRest := passed.behind
      have atParams : (Filling.start list.raw []).params = (list.front call).flatMap Param.raw ++
            (((list.byName call).map NamedParam.param).flatMap Param.raw ++
              list.namedSlurpyPart.flatMap Param.raw) := by
        change list.raw = _
        rw [ParamList.raw, list.params_eq call]
        simp
      rw [atParams, drop_left] at atRest
      rcases rejected with tooFew | tooMany | missing
      · exact absurd enough (Nat.not_le.mpr tooFew)
      · rw [← endIndex_front_lt_iff, ← index] at tooMany
        exact absurd fits (Nat.not_le.mpr tooMany)
      · rcases namedLoop_missing _ atRest.symm (noFlagAhead_raw _) missing with ⟨message, threw⟩
        exact ⟨message, by rw [threw]; rfl⟩
    · unfold fillLoops
      rw [ran]
      simp only [Except.ok_bind, Nat.lt_of_not_le fits, decide_true, Bool.and_self, if_true]
      exact ⟨_, rfl⟩
  · have atParams : (Filling.start list.raw []).params =
        (list.required.map requiredParam).flatMap Param.raw ++
          (list.optionals.map optionalParam ++ (list.slurpyPart ++
            (list.nameds.map NamedParam.param ++ list.namedSlurpyPart))).flatMap Param.raw := by
      simp [Filling.start, ParamList.raw, ParamList.params, ParamList.positionals]
    have noNamed : NoNamed (Filling.start list.raw []) := rfl
    rcases positionalLoop_missing list.required atParams noNamed (Nat.zero_le _)
        (by simpa [Filling.start] using enough) with ⟨message, threw⟩
    exact ⟨message, by rw [fillLoops, threw]; rfl⟩

theorem writes_plan_namedSlurpy (params : List Param) :
    writes 0 (params ++ [.namedSlurpy]) (plan call known 0 (params ++ [.namedSlurpy])) =
      writes 0 params (plan call known 0 params) ++ [((params.flatMap Param.raw).length,
          .collectNamed (call.names.filter fun name => decide (name ∉ known)))] := by
  rw [plan_append, writes_append _ _ _ _ _ (length_plan ..).symm]
  simp [plan, planned, writes, Param.writes]

theorem unused_names (passed : Passed (.start list.raw []) after params received
      ((list.byPosition call).map NamedParam.name ++
        ((list.byName call).filter fun param => decide (param.name ∈ call.names)).map
          NamedParam.name)) : (call.names.filter fun name => !after.isUsed name) =
      call.names.filter fun name => decide (name ∉ list.names) := by
  apply filter_congr
  intro name inCall
  have unusedStart : (Filling.start list.raw []).isUsed name = false := rfl
  have inNames : name ∈ list.names ↔ name ∈ (list.byPosition call).map NamedParam.name ++
        ((list.byName call).filter fun param => decide (param.name ∈ call.names)).map
          NamedParam.name := by
    rw [ParamList.names, ← list.byPosition_append_byName call, map_append, mem_append, mem_append]
    apply or_congr Iff.rfl
    simp only [mem_map, mem_filter, decide_eq_true_eq]
    constructor
    · rintro ⟨param, member, rfl⟩
      exact ⟨param, ⟨member, inCall⟩, rfl⟩
    · rintro ⟨param, ⟨member, _⟩, rfl⟩
      exact ⟨param, member, rfl⟩
  rw [passed.isUsed, unusedStart, Bool.or_false]
  simp only [← inNames, decide_not]

theorem fillParams_of_not_rejected (settled : ¬ list.Rejected call) :
    ∃ s, fillParams true (some call) list.raw = checkNamed true call.names s ∧
      s.stores = writes 0 list.params (plan call list.names 0 list.params) ∧
      s.namedCount = (list.usedNames call).length ∧
      s.used.isNone = decide (list.usedNames call = []) := by
  rw [fillParams_raw]
  have enough : list.required.length ≤ call.positionals :=
    Nat.le_of_not_lt fun tooFew => settled (.inl tooFew)
  rcases positionalLoop_list list.names enough with ⟨s, ran, passed, index⟩
  have fits : call.positionals ≤ s.argIndex := by
    apply Nat.le_of_not_lt
    rw [index, endIndex_front_lt_iff]
    exact fun tooMany => settled (.inr (.inl tooMany))
  rw [fillLoops_eq ran fits]
  have atRest := passed.behind
  have atParams : (Filling.start list.raw []).params = (list.front call).flatMap Param.raw ++
        (((list.byName call).map NamedParam.param).flatMap Param.raw ++
          list.namedSlurpyPart.flatMap Param.raw) := by
    change list.raw = _
    rw [ParamList.raw, list.params_eq call]
    simp
  rw [atParams, drop_left] at atRest
  have found : ∀ param ∈ list.byName call, ¬ param.Missing call :=
    fun param member missing => settled (.inr (.inr ⟨param, member, missing⟩))
  rcases namedLoop_group list.names (list.byName call) (index ▸ fits) atRest.symm
      (noFlagAhead_raw _) found with ⟨after, ranNamed, passedNamed⟩
  rw [ranNamed]
  have atEnd := passedNamed.behind
  rw [← atRest, drop_left] at atEnd
  have both := passed.trans passedNamed
  rw [← plan_append] at both
  have params := list.params_eq call
  rw [← append_assoc] at params
  by_cases slurpy : list.namedSlurpy = true
  · have atSlurpy : after.params = [rawNamedSlurpy] := by
      rw [← atEnd]
      simp [ParamList.namedSlurpyPart, slurpy, Param.raw]
    rw [namedLoop_slurpy atSlurpy, unused_names both]
    refine ⟨_, rfl, ?_, ?_, ?_⟩
    · change (after.useAll _).stores ++ [((after.useAll _).paramIndex, _)] = _
      rw [Filling.stores_useAll, Filling.paramIndex_useAll, both.stores, both.paramIndex, params,
        ParamList.namedSlurpyPart, if_pos slurpy, writes_plan_namedSlurpy]
      simp [Filling.start]
    · change (after.useAll _).namedCount = _
      rw [Filling.namedCount_useAll, both.namedCount]
      simp [ParamList.usedNames, slurpy, Filling.start]
      omega
    · change (after.useAll _).used.isNone = _
      rw [Filling.isNone_used_useAll, both.isNone]
      simp [ParamList.usedNames, slurpy, Filling.start, Bool.and_comm, Bool.and_left_comm]
  · have atEndOfList : after.params = [] := by
      rw [← atEnd]
      simp [ParamList.namedSlurpyPart, slurpy]
    rw [namedLoop_end atEndOfList]
    refine ⟨after, rfl, ?_, ?_, ?_⟩
    · rw [both.stores, params]
      simp [ParamList.namedSlurpyPart, slurpy, Filling.start]
    · rw [both.namedCount]
      simp [ParamList.usedNames, slurpy, Filling.start]
    · rw [both.isNone]
      simp [ParamList.usedNames, slurpy, Filling.start]

end

end RakudoStar.Call
