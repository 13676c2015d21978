import RakudoStar.Call.Outcome

/-!
# Exact assignments and the plan

An exact assignment has no choice about the positional arguments, so it agrees with the plan of
the loops on them. Where every required parameter is reached the plan is accepted.
-/

namespace RakudoStar.Call

open List Nat

/-- The positional part from an argument index on. -/
structure PositionsFrom (call : CallContext) (index : Nat) (params : List Param)
    (received : List Received) : Prop where
  accepted : List.Forall₂ (Accepts call) params received
  positions : received.flatMap Received.positions = List.range' index (call.positionals - index)
  inOrder : InOrder received

section

variable {call : CallContext} {known : List String} {index : Nat}

variable {others received : List Received} {params : List Param} {param : Param}
  {head : Received}

theorem Exact.positionsFrom (exact : Exact params call received) :
    PositionsFrom call 0 params received :=
  ⟨exact.accepted, by rw [exact.positions, range_eq_range', Nat.sub_zero], exact.inOrder⟩

theorem PositionsFrom.head_reached
    (assigned : PositionsFrom call index (param :: params) (head :: others))
    (reached : index < call.positionals) : head.positions ≠ [] := by
  intro empty
  have positions := assigned.positions
  rw [flatMap_cons, empty, nil_append] at positions
  have inRest : index ∈ others.flatMap Received.positions := by
    rw [positions]
    exact mem_range'_1.mpr ⟨Nat.le_refl _, by omega⟩
  rcases mem_flatMap.mp inRest with ⟨later, member, position⟩
  rcases rel_of_pairwise_cons assigned.inOrder member (ne_nil_of_mem position) with ⟨taken, rfl⟩
  cases empty

theorem PositionsFrom.head_over
    (assigned : PositionsFrom call index (param :: params) (head :: others))
    (spent : call.positionals ≤ index) : head.positions = [] := by
  have positions := assigned.positions
  rw [Nat.sub_eq_zero_of_le spent, flatMap_cons] at positions
  exact (append_eq_nil_iff.mp positions).1

theorem PositionsFrom.tail_argument {taken : Nat}
    (assigned : PositionsFrom call index (param :: params) (.argument taken :: others)) :
    taken = index ∧ index < call.positionals ∧ PositionsFrom call (index + 1) params others := by
  have positions := assigned.positions
  rw [flatMap_cons] at positions
  cases left : call.positionals - index with
  | zero =>
    rw [left] at positions
    cases positions
  | succ rest =>
    rw [left, range'_succ] at positions
    have heads := List.cons.inj positions
    have accepted := forall₂_cons.mp assigned.accepted
    refine ⟨heads.1, by omega, accepted.2, ?_, (pairwise_cons.mp assigned.inOrder).2⟩
    have restEq : rest = call.positionals - (index + 1) := by omega
    rw [← restEq]
    exact heads.2

theorem PositionsFrom.tail_rest {indices : List Nat}
    (assigned : PositionsFrom call index (param :: params) (.rest indices :: others)) :
    others.flatMap Received.positions = [] := by
  rw [flatMap_eq_nil_iff]
  intro later member
  by_contra nonempty
  rcases rel_of_pairwise_cons assigned.inOrder member nonempty with ⟨taken, impossible⟩
  cases impossible

theorem PositionsFrom.tail_empty
    (assigned : PositionsFrom call index (param :: params) (head :: others))
    (empty : head.positions = []) :
    call.positionals ≤ index ∧ others.flatMap Received.positions = [] := by
  have spent : call.positionals ≤ index :=
    Nat.le_of_not_lt fun reached => assigned.head_reached reached empty
  have positions := assigned.positions
  rw [Nat.sub_eq_zero_of_le spent, flatMap_cons] at positions
  exact ⟨spent, (append_eq_nil_iff.mp positions).2⟩

theorem PositionsFrom.tail
    (assigned : PositionsFrom call index (param :: params) (head :: others)) :
    PositionsFrom call (nextIndex call index param) params others := by
  have accepted := forall₂_cons.mp assigned.accepted
  have inOrder := (pairwise_cons.mp assigned.inOrder).2
  have nothingLeft : ∀ next, call.positionals ≤ next →
      others.flatMap Received.positions = [] → PositionsFrom call next params others := by
    intro next spent empty
    refine ⟨accepted.2, ?_, inOrder⟩
    rw [empty, Nat.sub_eq_zero_of_le spent]
    rfl
  cases accepted.1 with
  | positional type presence taken => exact assigned.tail_argument.2.2
  | noPositional type optFlag =>
    have empty := assigned.tail_empty rfl
    exact nothingLeft _ (le_succ_of_le empty.1) empty.2
  | slurpy indices => exact nothingLeft _ (Nat.le_max_right _ _) assigned.tail_rest
  | namedByPosition name constant type presence taken => exact assigned.tail_argument.2.2
  | named name constant type presence | noNamed name constant type optFlag absent =>
    have empty := assigned.tail_empty rfl
    exact nothingLeft _ (le_succ_of_le empty.1) empty.2
  | namedSlurpy names =>
    have empty := assigned.tail_empty rfl
    exact nothingLeft _ empty.1 empty.2

theorem PositionsFrom.split {first second : List Param}
    (assigned : PositionsFrom call index (first ++ second) received) :
    ∃ front back, received = front ++ back ∧ front.length = first.length ∧
      PositionsFrom call (endIndex call index first) second back := by
  induction first generalizing index received with
  | nil => exact ⟨[], received, rfl, rfl, assigned⟩
  | cons param first ih =>
    cases received with
    | nil => exact absurd assigned.accepted.length_eq (by simp)
    | cons head others =>
      rcases ih assigned.tail with ⟨front, back, rfl, lengths, later⟩
      exact ⟨head :: front, back, rfl, congrArg Nat.succ lengths, later⟩

theorem PositionsFrom.covered (assigned : PositionsFrom call index params received) :
    call.positionals ≤ endIndex call index params := by
  rw [← append_nil params] at assigned
  rcases assigned.split with ⟨front, back, _, _, atEnd⟩
  cases back with
  | nil =>
    have positions := congrArg length atEnd.positions
    simp only [flatMap_nil, length_nil, length_range'] at positions
    omega
  | cons head others => exact absurd atEnd.accepted.length_eq (by simp)

theorem PositionsFrom.required {types : List ParamType}
    (assigned : PositionsFrom call index (types.map requiredParam ++ params) received) :
    types = [] ∨ index + types.length ≤ call.positionals := by
  induction types generalizing index received with
  | nil => exact .inl rfl
  | cons type types ih =>
    cases received with
    | nil => exact absurd assigned.accepted.length_eq (by simp)
    | cons head others =>
      have accepted := (forall₂_cons.mp assigned.accepted).1
      cases accepted with
      | positional _ _ taken =>
        have here := assigned.tail_argument
        rcases ih here.2.2 with rfl | enough
        · exact .inr here.2.1
        · rw [length_cons]
          exact .inr (by omega)

theorem PositionsFrom.requiredNamed {nameds : List NamedParam} (spent : call.positionals ≤ index)
    (assigned : PositionsFrom call index (nameds.map NamedParam.param ++ params) received)
    {param : NamedParam} (member : param ∈ nameds) (required : param.presence = .required) :
    param.name ∈ (List.zipWith Param.takes (nameds.map NamedParam.param ++ params)
      received).flatten := by
  induction nameds generalizing index received with
  | nil => cases member
  | cons first nameds ih =>
    cases received with
    | nil => exact absurd assigned.accepted.length_eq (by simp)
    | cons head others =>
      rw [map_cons, cons_append, zipWith_cons_cons, flatten_cons, mem_append]
      rcases mem_cons.mp member with rfl | inRest
      · have accepted := (forall₂_cons.mp assigned.accepted).1
        have empty := assigned.head_over spent
        rw [NamedParam.param, required] at accepted
        cases accepted with
        | namedByPosition _ _ _ _ taken => cases empty
        | named => exact .inl mem_cons_self
      · exact .inr (ih (le_succ_of_le spent) assigned.tail inRest)

end

section

variable {call : CallContext} {known : List String} {index : Nat} (params : List Param)
  (nameds : List NamedParam)

theorem index_le_nextIndex (call : CallContext) (index : Nat) (param : Param) :
    index ≤ nextIndex call index param := by
  cases param with
  | slurpy => exact Nat.le_max_left _ _
  | namedSlurpy => exact Nat.le_refl _
  | positional _ _ | named _ _ _ _ => exact le_succ _

theorem index_le_endIndex (call : CallContext) (index : Nat) (params : List Param) :
    index ≤ endIndex call index params := by
  induction params generalizing index with
  | nil => exact Nat.le_refl _
  | cons param params ih =>
    exact Nat.le_trans (index_le_nextIndex call index param) (ih _)

theorem positions_planned (call : CallContext) (known : List String) (index : Nat)
    (param : Param) : (planned call known index param).positions =
      range' index (min (nextIndex call index param) call.positionals - index) := by
  cases param with
  | positional type presence =>
    by_cases reached : index < call.positionals
    · have one : min (index + 1) call.positionals - index = 1 := by omega
      simp [planned, reached, nextIndex, one, Received.positions]
    · have none : min (index + 1) call.positionals - index = 0 := by omega
      simp [planned, reached, nextIndex, none, Received.positions]
  | slurpy =>
    have all : min (max index call.positionals) call.positionals = call.positionals :=
      Nat.min_eq_right (Nat.le_max_right _ _)
    simp [planned, nextIndex, all, Received.positions]
  | named name constant type presence =>
    by_cases reached : index < call.positionals
    · have one : min (index + 1) call.positionals - index = 1 := by omega
      simp [planned, reached, nextIndex, one, Received.positions]
    have none : min (index + 1) call.positionals - index = 0 := by omega
    by_cases passed : name ∈ call.names <;>
      simp [planned, reached, passed, nextIndex, none, Received.positions]
  | namedSlurpy =>
    have none : min index call.positionals - index = 0 := by omega
    simp [planned, nextIndex, none, Received.positions]

/-- The plan hands out the positional arguments one after another. -/
theorem positions_plan (call : CallContext) (known : List String) (index : Nat)
    (params : List Param) : (plan call known index params).flatMap Received.positions =
      range' index (min (endIndex call index params) call.positionals - index) := by
  induction params generalizing index with
  | nil =>
    have none : min index call.positionals - index = 0 := by omega
    change [] = range' index (min index call.positionals - index)
    rw [none]
    rfl
  | cons param params ih =>
    change (planned call known index param).positions ++
      (plan call known (nextIndex call index param) params).flatMap Received.positions = _
    rw [ih, positions_planned]
    change _ = range' index
      (min (endIndex call (nextIndex call index param) params) call.positionals - index)
    have first := index_le_nextIndex call index param
    have second := index_le_endIndex call (nextIndex call index param) params
    rcases Nat.le_total (nextIndex call index param) call.positionals with within | beyond
    · rw [Nat.min_eq_left within]
      have joint := range'_append_1 (s := index)
        (m := nextIndex call index param - index)
        (n := min (endIndex call (nextIndex call index param) params) call.positionals -
          nextIndex call index param)
      rw [Nat.add_sub_cancel' first] at joint
      rw [joint]
      congr 1
      omega
    have none : min (endIndex call (nextIndex call index param) params) call.positionals -
        nextIndex call index param = 0 := by omega
    rw [none, range'_zero, append_nil]
    congr 1
    omega

theorem inOrder_plan (noSlurpy : Param.namedSlurpy ∉ params) :
    InOrder (plan call known index params) := by
  induction params generalizing index with
  | nil => exact List.Pairwise.nil
  | cons param params ih =>
    rw [mem_cons, not_or] at noSlurpy
    apply List.Pairwise.cons _ (ih noSlurpy.2)
    intro later member nonempty
    have reached : nextIndex call index param < call.positionals := by
      rcases exists_mem_of_ne_nil _ nonempty with ⟨position, inLater⟩
      have inPlan := mem_flatMap.mpr ⟨later, member, inLater⟩
      rw [positions_plan, mem_range'_1] at inPlan
      omega
    have reachedHere := Nat.lt_of_le_of_lt (index_le_nextIndex call index param) reached
    cases param with
    | positional type presence => exact ⟨index, by simp [planned, reachedHere]⟩
    | slurpy => exact absurd (Nat.le_max_right _ _) (Nat.not_le.mpr reached)
    | named name constant type presence => exact ⟨index, by simp [planned, reachedHere]⟩
    | namedSlurpy => exact absurd rfl noSlurpy.1

/-- A parameter gets what it must have. -/
def Served (call : CallContext) (index : Nat) : Param → Prop
  | .positional _ .required => index < call.positionals
  | .named name _ _ .required => index < call.positionals ∨ name ∈ call.names
  | _ => True

theorem accepts_planned {param : Param} (served : Served call index param) :
    Accepts call param (planned call known index param) := by
  cases param with
  | positional type presence =>
    by_cases reached : index < call.positionals
    · rw [planned, if_pos reached]
      exact .positional type presence index
    rw [planned, if_neg reached]
    cases presence with
    | required => exact absurd served reached
    | optional optFlag => exact .noPositional type optFlag
  | slurpy => exact .slurpy _
  | named name constant type presence =>
    by_cases reached : index < call.positionals
    · rw [planned, if_pos reached]
      exact .namedByPosition name constant type presence index
    rw [planned, if_neg reached]
    by_cases passed : name ∈ call.names
    · rw [if_pos passed]
      exact .named name constant type presence
    rw [if_neg passed]
    cases presence with
    | required => exact absurd served (not_or.mpr ⟨reached, passed⟩)
    | optional optFlag => exact .noNamed name constant type optFlag passed
  | namedSlurpy => exact .namedSlurpy _

/-- Every parameter of a list gets what it must have. -/
def AllServed (call : CallContext) : Nat → List Param → Prop
  | _, [] => True
  | index, param :: params =>
    Served call index param ∧ AllServed call (nextIndex call index param) params

theorem accepts_plan {params : List Param} (served : AllServed call index params) :
    List.Forall₂ (Accepts call) params (plan call known index params) := by
  induction params generalizing index with
  | nil => exact .nil
  | cons param params ih =>
    exact .cons (accepts_planned served.1) (ih served.2)

theorem allServed_append (first second : List Param) : AllServed call index (first ++ second) ↔
      AllServed call index first ∧ AllServed call (endIndex call index first) second := by
  induction first generalizing index with
  | nil => simp [AllServed, endIndex]
  | cons param first ih =>
    rw [cons_append, AllServed, AllServed, ih, and_assoc]
    rfl

theorem allServed_of_free (free : ∀ param ∈ params, ∀ index, Served call index param) :
    AllServed call index params := by
  induction params generalizing index with
  | nil => trivial
  | cons param params ih =>
    exact ⟨free param mem_cons_self index, ih (forall_mem_cons.mp free).2⟩

theorem allServed_required (types : List ParamType)
    (enough : index + types.length ≤ call.positionals) :
    AllServed call index (types.map requiredParam) := by
  induction types generalizing index with
  | nil => trivial
  | cons type types ih =>
    rw [length_cons] at enough
    have reached : index < call.positionals := by omega
    have later : index + 1 + types.length ≤ call.positionals := by omega
    exact ⟨reached, ih later⟩

theorem allServed_byPosition (known : List String) (nameds : List NamedParam)
    (reached : ∀ offset < nameds.length, index + offset < call.positionals) :
    AllServed call index (nameds.map NamedParam.param) ∧
      (List.zipWith Param.takes (nameds.map NamedParam.param)
        (plan call known index (nameds.map NamedParam.param))).flatten = [] := by
  induction nameds generalizing index with
  | nil => exact ⟨trivial, rfl⟩
  | cons param nameds ih =>
    have here : index < call.positionals := reached 0 (succ_pos _)
    have reachedLater : ∀ offset < nameds.length, index + 1 + offset < call.positionals := by
      intro offset below
      have further := reached (offset + 1) (succ_lt_succ below)
      omega
    rcases ih reachedLater with ⟨served, takes⟩
    constructor
    · refine ⟨?_, served⟩
      cases presence : param.presence <;> simp [NamedParam.param, Served, presence, here]
    simp only [map_cons, plan, zipWith_cons_cons, flatten_cons]
    rw [NamedParam.param, planned, if_pos here]
    exact takes

/-- None of the named parameters behind the positionals is missing. -/
theorem allServed_byName (found : ∀ param ∈ nameds, ¬ param.Missing call) :
    AllServed call index (nameds.map NamedParam.param) := by
  induction nameds generalizing index with
  | nil => trivial
  | cons param nameds ih =>
    refine ⟨?_, ih (forall_mem_cons.mp found).2⟩
    have here := found param mem_cons_self
    unfold NamedParam.Missing at here
    cases presence : param.presence with
    | required =>
      have passed : param.name ∈ call.names := by
        by_contra absent
        exact here ⟨presence, absent⟩
      simp [NamedParam.param, Served, presence, passed]
    | optional optFlag => simp [NamedParam.param, Served, presence]

theorem takes_byName (spent : call.positionals ≤ index) :
    (List.zipWith Param.takes (nameds.map NamedParam.param)
        (plan call known index (nameds.map NamedParam.param))).flatten =
      (nameds.filter fun param => decide (param.name ∈ call.names)).map NamedParam.name := by
  induction nameds generalizing index with
  | nil => rfl
  | cons param nameds ih =>
    simp only [map_cons, plan, zipWith_cons_cons, flatten_cons, filter_cons]
    rw [ih (Nat.le_trans spent (index_le_nextIndex call index param.param)),
      NamedParam.param, planned, if_neg (Nat.not_lt.mpr spent)]
    by_cases passed : param.name ∈ call.names <;> simp [passed, Param.takes]

end

section

variable {call : CallContext} {place : Nat}

theorem length_valueWrites (fill other : Fill) (received another : Bool)
    (presence : Presence) : (Param.valueWrites place fill received presence).length =
      (Param.valueWrites place other another presence).length := by
  rcases presence with _ | (_ | _) <;> rfl

theorem valueWrites_inj {fill other : Fill} {received another : Bool} {presence : Presence}
    (equal : Param.valueWrites place fill received presence =
      Param.valueWrites place other another presence) : fill = other := by
  rcases presence with _ | (_ | _)
  all_goals exact congrArg Prod.snd (List.cons.inj equal).1

/-- The number of a parameter's writes does not depend on what it receives. -/
theorem writes_param_inj (place : Nat) {param : Param} {first second : Received}
    (acceptsFirst : Accepts call param first) (acceptsSecond : Accepts call param second) :
    (param.writes place first).length = (param.writes place second).length ∧
      (param.writes place first = param.writes place second → first = second) := by
  cases acceptsFirst <;> cases acceptsSecond <;>
    first
      | exact ⟨length_valueWrites _ _ _ _ _, fun equal => by
        cases valueWrites_inj equal <;> rfl⟩
      | exact ⟨rfl, fun equal => by
        cases congrArg Prod.snd (List.cons.inj equal).1
        rfl⟩

/-- Two assignments that a list accepts and that are written alike are equal. -/
theorem writes_inj {params : List Param} {first second : List Received}
    (acceptsFirst : List.Forall₂ (Accepts call) params first)
    (acceptsSecond : List.Forall₂ (Accepts call) params second)
    (equal : writes place params first = writes place params second) : first = second := by
  induction acceptsFirst generalizing place second with
  | nil =>
    cases acceptsSecond
    rfl
  | cons acceptsHead _ ih =>
    cases acceptsSecond with
    | cons acceptsOther acceptsOthers =>
      have heads := writes_param_inj place acceptsHead acceptsOther
      have parts := append_inj equal heads.1
      rw [heads.2 parts.1, ih acceptsOthers parts.2]

end

end RakudoStar.Call
