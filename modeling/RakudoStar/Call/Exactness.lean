import RakudoStar.Call.Assignment
import Mathlib.Data.List.Perm.Subperm

/-!
# When argument passing is exact

The last test of `fill_params` compares the number of named arguments with a count of the names
used, in which a named parameter filled by position is. What the count misses is exactly what is
passed inexactly.
-/

namespace RakudoStar.Call

open List

namespace ParamList

variable (list : ParamList) (call : CallContext)

/-- The named arguments that parameters can take. -/
def takenNames : List String :=
  ((list.byName call).filter fun param => decide (param.name ∈ call.names)).map NamedParam.name ++
    if list.namedSlurpy then call.names.filter fun name => decide (name ∉ list.names)
    else []

/-- No named argument of the call is left over. -/
def NoneDropped : Prop :=
  ∀ name ∈ call.names, name ∈ list.takenNames call

/-- The last test throws: no name was used, or more were passed, as a C `int`, than used. -/
def CountFires : Prop :=
  call.names ≠ [] ∧ (list.usedNames call = [] ∨
      toCInt call.names.length > ((list.usedNames call).length : Int))

theorem takenNames_subset : list.takenNames call ⊆ call.names := by
  intro name member
  rcases mem_append.mp member with byName | collected
  · rcases mem_map.mp byName with ⟨param, passed, rfl⟩
    exact of_decide_eq_true (mem_filter.mp passed).2
  split at collected
  · exact (mem_filter.mp collected).1
  · cases collected

theorem nodup_byPosition_byName : ((list.byPosition call).map NamedParam.name ++
      (list.byName call).map NamedParam.name).Nodup := by
  have distinct := list.distinct
  rw [← list.byPosition_append_byName call, map_append] at distinct
  exact distinct

theorem nodup_takenNames : (list.takenNames call).Nodup := by
  have byName := (nodup_append.mp (list.nodup_byPosition_byName call)).2.1
  have matched := (((filter_sublist (l := list.byName call)
    (p := fun param => decide (param.name ∈ call.names))).map NamedParam.name).nodup byName)
  unfold takenNames
  split
  · apply nodup_append.mpr
    refine ⟨matched, call.distinct.filter _, ?_⟩
    intro first inMatched second collected equal
    subst equal
    have unknown := of_decide_eq_true (mem_filter.mp collected).2
    rcases mem_map.mp inMatched with ⟨param, passed, rfl⟩
    apply unknown
    rw [names, ← list.byPosition_append_byName call]
    exact mem_map.mpr ⟨param, mem_append_right _ (mem_filter.mp passed).1, rfl⟩
  · rw [append_nil]
    exact matched

end ParamList

section

variable {list : ParamList} {call : CallContext} {received : List Received} {name : String}

theorem covered_front (settled : ¬ list.Rejected call) :
    call.positionals ≤ endIndex call 0 (list.front call) := by
  apply Nat.le_of_not_lt
  rw [endIndex_front_lt_iff]
  exact fun tooMany => settled (.inr (.inl tooMany))

theorem Exact.covered (exact : Exact list.params call received) :
    call.positionals ≤ endIndex call 0 (list.front call) := by
  apply Nat.le_of_not_lt
  intro spent
  have tooMany := endIndex_front_lt_iff.mp spent
  have noneLeft : list.byName call = [] := by
    rw [ParamList.byName, if_neg (by simp [tooMany.1]), drop_eq_nil_iff]
    omega
  have covered := exact.positionsFrom.covered
  rw [list.params_eq call, noneLeft, map_nil, nil_append, endIndex_append] at covered
  have same : endIndex call (endIndex call 0 (list.front call)) list.namedSlurpyPart =
      endIndex call 0 (list.front call) := by
    unfold ParamList.namedSlurpyPart
    split <;> rfl
  rw [same] at covered
  exact absurd spent (Nat.not_lt.mpr covered)

theorem not_exact_of_rejected (rejected : list.Rejected call) :
    ¬ ∃ received, Exact list.params call received := by
  rintro ⟨received, exact⟩
  have covered := exact.covered
  have assigned := exact.positionsFrom
  rcases rejected with tooFew | tooMany | ⟨param, member, required, absent⟩
  · have atRequired := assigned
    rw [ParamList.params, ParamList.positionals, append_assoc] at atRequired
    rcases atRequired.required with none | enough
    · rw [none] at tooFew
      exact absurd tooFew (Nat.not_lt_zero _)
    · omega
  · exact absurd (endIndex_front_lt_iff.mpr tooMany) (Nat.not_lt.mpr covered)
  rw [list.params_eq call] at assigned
  rcases assigned.split with ⟨front, back, rfl, lengths, later⟩
  have taken := later.requiredNamed covered member required
  have names := exact.names
  rw [list.params_eq call, zipWith_append lengths.symm, flatten_append] at names
  exact absent (names.subset (mem_append_right _ taken))

theorem front_reached {offset : Nat} (below : offset < (list.byPosition call).length) :
    endIndex call (endIndex call 0 list.positionals) list.slurpyPart + offset <
      call.positionals := by
  have reached := list.byPosition_reached call below
  rw [ParamList.slurpyPart, reached.1, endIndex_positionals]
  exact reached.2

/-- When the loops do not reject the call, every parameter has what it must have. -/
theorem allServed_plan (settled : ¬ list.Rejected call) : AllServed call 0 list.params := by
  rw [list.params_eq call, allServed_append, allServed_append, ParamList.front,
    allServed_append, allServed_append]
  refine ⟨⟨?_, ?_, ?_⟩, ?_, ?_⟩
  · rw [ParamList.positionals, allServed_append]
    constructor
    · apply allServed_required
      rw [Nat.zero_add]
      exact Nat.le_of_not_lt fun tooFew => settled (.inl tooFew)
    apply allServed_of_free
    intro param member index
    rcases mem_map.mp member with ⟨entry, _, rfl⟩
    trivial
  · apply allServed_of_free
    intro param member index
    unfold ParamList.slurpyPart at member
    split at member
    · rw [mem_singleton.mp member]
      trivial
    · cases member
  · exact (allServed_byPosition [] _ fun offset below => front_reached below).1
  · exact allServed_byName _ fun param member missing =>
      settled (.inr (.inr ⟨param, member, missing⟩))
  · apply allServed_of_free
    intro param member index
    unfold ParamList.namedSlurpyPart at member
    split at member
    · rw [mem_singleton.mp member]
      trivial
    · cases member

theorem takes_eq_nil (params : List Param) (received : List Received)
    (noNames : ∀ param ∈ params, ∀ received, param.takes received = []) :
    (List.zipWith Param.takes params received).flatten = [] := by
  induction params generalizing received with
  | nil => simp
  | cons param params ih =>
    cases received with
    | nil => simp
    | cons head others =>
      rw [zipWith_cons_cons, flatten_cons, noNames param mem_cons_self]
      exact ih others (forall_mem_cons.mp noNames).2

theorem takes_plan (settled : ¬ list.Rejected call) : (List.zipWith Param.takes list.params
      (plan call list.names 0 list.params)).flatten = list.takenNames call := by
  have spent : call.positionals ≤ endIndex call 0 (list.front call) := covered_front settled
  have frontTakes : (List.zipWith Param.takes (list.front call)
      (plan call list.names 0 (list.front call))).flatten = [] := by
    rw [ParamList.front, plan_append, plan_append,
      zipWith_append (by simp), zipWith_append (by simp), flatten_append, flatten_append,
      (allServed_byPosition _ _ fun offset below => front_reached below).2,
      takes_eq_nil list.positionals, takes_eq_nil list.slurpyPart]
    · rfl
    · intro param member received
      unfold ParamList.slurpyPart at member
      split at member
      · rw [mem_singleton.mp member]
        rfl
      · cases member
    intro param member received
    rcases mem_append.mp member with inRequired | inOptionals
    · rcases mem_map.mp inRequired with ⟨type, _, rfl⟩
      rfl
    · rcases mem_map.mp inOptionals with ⟨entry, _, rfl⟩
      rfl
  rw [list.params_eq call, plan_append, plan_append, zipWith_append (by simp),
    zipWith_append (by simp), flatten_append, flatten_append, frontTakes, takes_byName _ spent]
  unfold ParamList.takenNames ParamList.namedSlurpyPart
  split <;> simp [plan, planned, Param.takes]

theorem namedSlurpy_not_mem : Param.namedSlurpy ∉ list.positionals ++ (list.slurpyPart ++
      list.nameds.map NamedParam.param) := by
  intro member
  simp only [ParamList.positionals, ParamList.slurpyPart, mem_append, mem_map] at member
  rcases member with (⟨_, _, impossible⟩ | ⟨_, _, impossible⟩) | inSlurpy | ⟨_, _, impossible⟩
  · cases impossible
  · cases impossible
  · split at inSlurpy
    · cases mem_singleton.mp inSlurpy
    · cases inSlurpy
  · cases impossible

theorem inOrder_plan_list (list : ParamList) (call : CallContext) (known : List String) :
    InOrder (plan call known 0 list.params) := by
  have params : list.params = (list.positionals ++ (list.slurpyPart ++
      list.nameds.map NamedParam.param)) ++ list.namedSlurpyPart := by
    simp [ParamList.params]
  rw [params, plan_append]
  apply pairwise_append.mpr
  refine ⟨inOrder_plan _ namedSlurpy_not_mem, ?_, ?_⟩
  · unfold ParamList.namedSlurpyPart
    split
    · exact pairwise_singleton _ _
    · exact List.Pairwise.nil
  intro earlier _ later member nonempty
  unfold ParamList.namedSlurpyPart at member
  split at member
  · rw [mem_singleton.mp member] at nonempty
    exact absurd rfl nonempty
  · cases member

theorem exact_plan_iff (settled : ¬ list.Rejected call) :
    Exact list.params call (plan call list.names 0 list.params) ↔ list.NoneDropped call := by
  constructor
  · intro exact name member
    have names := exact.names
    rw [takes_plan settled] at names
    exact names.symm.subset member
  intro noneDropped
  refine ⟨accepts_plan (allServed_plan settled), ?_, ?_, ?_⟩
  · have covered : call.positionals ≤ endIndex call 0 list.params := by
      rw [list.params_eq call, endIndex_append]
      exact Nat.le_trans (covered_front settled) (index_le_endIndex ..)
    rw [positions_plan, Nat.min_eq_right covered, Nat.sub_zero, range_eq_range']
  · exact inOrder_plan_list list call list.names
  · rw [takes_plan settled]
    exact (perm_ext_iff_of_nodup (list.nodup_takenNames call) call.distinct).mpr
      fun name => ⟨fun member => list.takenNames_subset call member, noneDropped name⟩

theorem toCInt_le (n : Nat) : toCInt n ≤ (n : Int) := by
  unfold toCInt
  by_cases small : (n : Int) % 4294967296 < 2147483648
  · rw [Int.bmod_def, if_pos (by simpa using small)]
    omega
  · rw [Int.bmod_def, if_neg (by simpa using small)]
    omega

theorem unknown_of_countFires (fires : list.CountFires call) :
    list.namedSlurpy = false ∧ ∃ name ∈ call.names, name ∉ list.names := by
  have unused : ¬ call.names ⊆ list.usedNames call := by
    intro subset
    rcases fires with ⟨nonempty, none | more⟩
    · rw [none] at subset
      exact nonempty (subset_nil.mp subset)
    have bounded := (subperm_of_subset call.distinct subset).length_le
    have read := toCInt_le call.names.length
    omega
  have known : ∀ name ∈ call.names, name ∈ list.names → name ∈ list.usedNames call := by
    intro name inCall inNames
    rw [ParamList.names, ← list.byPosition_append_byName call, map_append] at inNames
    rcases mem_append.mp inNames with inPosition | inName
    · exact mem_append_left _ inPosition
    rcases mem_map.mp inName with ⟨param, member, rfl⟩
    exact mem_append_right _ (mem_append_left _ (mem_map.mpr
      ⟨param, mem_filter.mpr ⟨member, decide_eq_true inCall⟩, rfl⟩))
  constructor
  · by_contra slurpy
    apply unused
    intro name inCall
    by_cases inNames : name ∈ list.names
    · exact known name inCall inNames
    apply mem_append_right
    apply mem_append_right
    rw [if_pos ((Bool.not_eq_false _).mp slurpy)]
    exact mem_filter.mpr ⟨inCall, decide_eq_true inNames⟩
  by_contra none
  apply unused
  intro name inCall
  exact known name inCall (by_contra fun absent => none ⟨name, inCall, absent⟩)

theorem mem_names_of_takes {params : List Param} (noSlurpy : Param.namedSlurpy ∉ params)
    (taken : name ∈ (List.zipWith Param.takes params received).flatten) :
    name ∈ params.flatMap Param.names := by
  induction params generalizing received with
  | nil => simp at taken
  | cons param params ih =>
    rw [mem_cons, not_or] at noSlurpy
    cases received with
    | nil => simp at taken
    | cons head others =>
      rw [zipWith_cons_cons, flatten_cons, mem_append] at taken
      rw [flatMap_cons, mem_append]
      rcases taken with here | later
      · left
        unfold Param.takes at here
        split at here
        · exact here
        · exact absurd rfl noSlurpy.1
        · cases here
      · exact .inr (ih noSlurpy.2 later)

theorem flatMap_names_params (list : ParamList) : list.params.flatMap Param.names = list.names := by
  have slurpyNames : list.slurpyPart.flatMap Param.names = [] := by
    unfold ParamList.slurpyPart
    split <;> rfl
  have namedSlurpyNames : list.namedSlurpyPart.flatMap Param.names = [] := by
    unfold ParamList.namedSlurpyPart
    split <;> rfl
  rw [ParamList.params, flatMap_append, flatMap_append, flatMap_append,
    names_positionals, names_nameds, slurpyNames, namedSlurpyNames, nil_append,
    nil_append, append_nil, ParamList.names]

theorem not_exact_of_unknown (noSlurpy : list.namedSlurpy = false)
    (inCall : name ∈ call.names) (unknown : name ∉ list.names) :
    ¬ ∃ received, Exact list.params call received := by
  rintro ⟨received, exact⟩
  have taken := exact.names.symm.subset inCall
  have noneThere : Param.namedSlurpy ∉ list.params := by
    have params : list.params = list.positionals ++ (list.slurpyPart ++
        list.nameds.map NamedParam.param) := by
      simp [ParamList.params, ParamList.namedSlurpyPart, noSlurpy]
    rw [params]
    exact namedSlurpy_not_mem
  apply unknown
  rw [← flatMap_names_params]
  exact mem_names_of_takes noneThere taken

instance (list : ParamList) (call : CallContext) : Decidable (list.CountFires call) :=
  inferInstanceAs (Decidable (_ ∧ (_ ∨ _)))

theorem checkNamed_eq {s : Filling} (count : s.namedCount = (list.usedNames call).length)
    (none : s.used.isNone = decide (list.usedNames call = [])) : checkNamed true call.names s =
      if list.CountFires call then .error (namedArgumentArityError call.names s)
      else .ok s.stores := by
  unfold checkNamed
  rw [count, none]
  congr 1
  simp [ParamList.CountFires]

/-- Argument passing is exact for just these calls: those that the loops reject,
those whose unused named arguments the last test counts, and those without a
named argument to drop. -/
theorem passesExactly_iff (list : ParamList) (call : CallContext) : PassesExactly list call ↔
      list.Rejected call ∨ list.CountFires call ∨ list.NoneDropped call := by
  unfold PassesExactly
  by_cases rejected : list.Rejected call
  · rcases fillParams_of_rejected rejected with ⟨message, threw⟩
    rw [threw]
    exact iff_of_true (not_exact_of_rejected rejected) (.inl rejected)
  rcases fillParams_of_not_rejected rejected with ⟨s, checked, stores, count, none⟩
  rw [checked, checkNamed_eq count none]
  by_cases fires : list.CountFires call
  · rw [if_pos fires]
    rcases unknown_of_countFires fires with ⟨noSlurpy, name, inCall, unknown⟩
    exact iff_of_true (not_exact_of_unknown noSlurpy inCall unknown) (.inr (.inl fires))
  rw [if_neg fires]
  rw [stores]
  constructor
  · rintro ⟨received, exact, written⟩
    have same := writes_inj (accepts_plan (allServed_plan rejected)) exact.accepted written
    rw [← same] at exact
    exact .inr (.inr ((exact_plan_iff rejected).mp exact))
  rintro (impossible | impossible | noneDropped)
  · exact absurd impossible rejected
  · exact absurd impossible fires
  · exact ⟨_, (exact_plan_iff rejected).mpr noneDropped, rfl⟩

/-- A list of one optional parameter named `a`. -/
def oneNamed : ParamList :=
  { required := [], optionals := [], slurpy := false
    nameds := [{ name := "a", constant := true, type := .pmc, presence := .optional false }]
    namedSlurpy := false
    distinct := by decide }

/-- A call that passes one argument by position and one under the name `a`. -/
def filledTwice : CallContext :=
  { positionals := 1, names := ["a"], distinct := by decide }

example : fillParams true (some filledTwice) oneNamed.raw = .ok [(1, .positional .pmc 0)] := by
  rfl

/-- The argument under the name of a parameter filled by position is dropped
without an error. -/
theorem not_passesExactly_filledTwice : ¬ PassesExactly oneNamed filledTwice := by
  intro passes
  have outcome : fillParams true (some filledTwice) oneNamed.raw =
      .ok [(1, .positional .pmc 0)] := rfl
  unfold PassesExactly at passes
  rw [outcome] at passes
  rcases passes with ⟨received, exact, _⟩
  have accepted : List.Forall₂ (Accepts filledTwice)
      [.named "a" true .pmc (.optional false)] received := exact.accepted
  rcases forall₂_cons_left_iff.mp accepted with ⟨head, others, acceptsHead, noOthers, rfl⟩
  cases noOthers
  have names := exact.names.length_eq
  have positions := exact.positions
  cases acceptsHead with
  | namedByPosition _ _ _ _ taken => cases names
  | named => cases positions
  | noNamed _ _ _ _ absent => exact absent mem_cons_self

end

end RakudoStar.Call
