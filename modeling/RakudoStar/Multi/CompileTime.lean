import RakudoStar.Multi.Dispatch
import RakudoStar.Binder.TrialBind

/-!
# Compile-time multi-dispatch

`Rakudo_md_ct_dispatch` of `multidispatch.c` runs the search over the argument types the
optimizer knows: when its verdicts agree with the search at run time.
-/

namespace RakudoStar.Multi

open Binder List

variable {Ty Val Sub : Type} [DecidableEq Ty]

/-- `MD_CT_NOT_SURE`, `MD_CT_DECIDED` with its result, and `MD_CT_NO_WAY`. -/
inductive CtResult (Sub : Type)
  | notSure
  | decided (result : Sub)
  | noWay
  deriving DecidableEq, Repr

/-- The flags set while the types of one candidate are checked. -/
structure CtMatch where
  typeMismatch : Bool
  typeMatchPossible : Bool
  usedDefcon : Bool
  allNative : Bool

/-- The variables of the search that live across candidates. -/
structure CtState (Sub : Type) where
  allNative : Bool
  arityPossible : Bool
  typePossible : Bool
  curResult : Option Sub

section

variable (interp : Interp Ty Val)

/-- Check the types; only a native mismatch breaks off the loop. -/
def ctMatchTypes : List (TypeSlot Ty Val × CtArg Ty) → CtMatch → CtMatch
  | [], flags => flags
  | (slot, arg) :: rest, flags =>
    match slot.native, arg with
    | some _, .object _ => { flags with typeMismatch := true }
    | some kind, .native got =>
      if got ≠ kind then
        { flags with typeMismatch := true, typeMatchPossible := false }
      else
        ctMatchTypes rest flags
    | none, _ =>
      let flags := { flags with allNative := false }
      let type := arg.boxedType interp
      if slot.type ≠ interp.mu && !interp.typeCheck type false slot.type then
        ctMatchTypes rest { flags with
          typeMismatch := true
          typeMatchPossible := flags.typeMatchPossible && interp.typeCheck slot.type false type }
      else if slot.defcon ≠ .none then
        ctMatchTypes rest { flags with usedDefcon := true }
      else
        ctMatchTypes rest flags

/-- The parameters of a candidate that are checked, each with its argument. -/
def ctPairs (info : CandidateInfo Ty Val Sub) (args : List (CtArg Ty)) :
    List (TypeSlot Ty Val × CtArg Ty) :=
  (info.slots.take info.numTypes).zip args

/-- Consider one candidate; `none` says that the dispatch cannot be decided. -/
def ctCandidate (args : List (CtArg Ty)) (state : CtState Sub)
    (info : CandidateInfo Ty Val Sub) : Option (CtState Sub) :=
  if arityAdmissible info args.length then
    let flags := ctMatchTypes interp (ctPairs info args)
      ⟨false, true, false, state.allNative⟩
    let state := { state with
      arityPossible := true
      allNative := flags.allNative
      typePossible := state.typePossible || flags.typeMatchPossible }
    if flags.typeMismatch then
      some state
    else if flags.usedDefcon || info.bindCheck then
      none
    else
      match state.curResult with
      | none => some { state with curResult := some info.sub }
      | some _ => none
  else
    some state

/-- Look through the candidates. The flag says whether all were seen. -/
def ctSearch (args : List (CtArg Ty)) : CandidateList Ty Val Sub → CtState Sub →
    Option (CtState Sub × Bool)
  | [], state => some (state, true)
  | some info :: rest, state => do
    let state ← ctCandidate interp args state info
    ctSearch args rest state
  | none :: rest, state =>
    match rest with
    | some _ :: _ =>
      if state.allNative && state.curResult.isNone then
        ctSearch args rest state
      else
        some (state, false)
    | _ => some (state, true)

def hasJunctionalTypes (args : List (CtArg Ty)) : Bool :=
  args.any fun
    | .object type => type = interp.junction
    | .native _ => false

/-- `Rakudo_md_ct_dispatch`, once the candidate list is obtained. -/
def ctDispatch (candidates : CandidateList Ty Val Sub) (args : List (CtArg Ty)) : CtResult Sub :=
  match ctSearch interp args candidates ⟨true, false, false, none⟩ with
  | none => .notSure
  | some (state, seenAll) =>
    if seenAll && (!state.arityPossible || !state.typePossible) &&
        state.curResult.isNone then
      if hasJunctionalTypes interp args then .notSure else .noWay
    else
      match state.curResult with
      | some result => .decided result
      | none => .notSure

end

section

variable (interp : Interp Ty Val) (args : List (CtArg Ty))

/-- Consider the candidates of a tied group in turn. -/
def ctGroup (group : List (CandidateInfo Ty Val Sub)) (state : CtState Sub) :
    Option (CtState Sub) :=
  group.foldlM (ctCandidate interp args) state

/-- Look through the tied groups. -/
def ctGroups : List (List (CandidateInfo Ty Val Sub)) → CtState Sub → Option (CtState Sub × Bool)
  | [], state => some (state, true)
  | group :: rest, state => do
    let state ← ctGroup interp args group state
    if rest.isEmpty then
      some (state, true)
    else if state.allNative && state.curResult.isNone then
      ctGroups rest state
    else
      some (state, false)

variable {interp args} (candidates : CandidateList Ty Val Sub)
  (seen : List (CandidateInfo Ty Val Sub)) (start : CtState Sub)

omit [DecidableEq Ty] in
theorem groupsFrom_ne_nil : groupsFrom candidates seen ≠ [] := by
  induction candidates generalizing seen with
  | nil => simp [groupsFrom]
  | cons entry rest ih =>
    cases entry with
    | some info => exact ih _
    | none =>
      unfold groupsFrom
      split <;> simp

/-- The loop over the candidate list looks through its tied groups. -/
theorem bind_ctSearch_eq_ctGroups : ((ctGroup interp args seen start).bind fun state =>
        ctSearch interp args candidates state) =
      ctGroups interp args (groupsFrom candidates seen) start := by
  induction candidates generalizing seen start with
  | nil => simp [ctSearch, groupsFrom, ctGroups]
  | cons entry rest ih =>
    cases entry with
    | some info =>
      have extended : ctGroup interp args (seen ++ [info]) start =
          (ctGroup interp args seen start).bind fun state =>
            ctCandidate interp args state info := by
        simp [ctGroup, foldlM_append]
      have continued := ih (seen ++ [info]) start
      rw [extended, Option.bind_assoc] at continued
      exact continued
    | none =>
      simp only [ctSearch, groupsFrom]
      cases rest with
      | nil => simp [ctGroups]
      | cons next rest =>
        cases next with
        | none => simp [ctGroups]
        | some info =>
          have continued := ih []
          simp only [ctGroup, foldlM_nil, Option.pure_def, Option.bind_some] at continued
          have more := groupsFrom_ne_nil (some info :: rest) []
          simp [ctGroups, more, continued]

theorem ctSearch_eq_ctGroups : ctSearch interp args candidates start =
      ctGroups interp args (tiedGroups candidates) start :=
  bind_ctSearch_eq_ctGroups candidates [] start

end

section

variable (interp : Interp Ty Val)

/-- A parameter certainly takes the arguments known by this type, its
definedness constraint apart. -/
def CtFits (slot : TypeSlot Ty Val) (arg : CtArg Ty) : Prop :=
  match slot.native with
  | some kind => arg = .native kind
  | none => slot.type = interp.mu ∨ interp.typeCheck (arg.boxedType interp) false slot.type = true

/-- A native parameter gets an object or a native value of another kind. -/
def WrongKind (slot : TypeSlot Ty Val) (arg : CtArg Ty) : Prop :=
  ∃ kind, slot.native = some kind ∧ arg ≠ .native kind

/-- A type does not match, and no type check holds in either direction. -/
def TypesRejected (slot : TypeSlot Ty Val) (arg : CtArg Ty) : Prop :=
  slot.native = none ∧ slot.type ≠ interp.mu ∧
    interp.typeCheck (arg.boxedType interp) false slot.type = false ∧
      interp.typeCheck slot.type false (arg.boxedType interp) = false

variable {interp} {pairs : List (TypeSlot Ty Val × CtArg Ty)} {flags : CtMatch}

/-- What the check of one parameter can do: fit, break off, or mismatch and go on. -/
inductive CtMatchStep (interp : Interp Ty Val) (slot : TypeSlot Ty Val)
    (arg : CtArg Ty) (rest : List (TypeSlot Ty Val × CtArg Ty)) (flags : CtMatch) : Prop
  | fits (fits : CtFits interp slot arg)
      (continues : ctMatchTypes interp ((slot, arg) :: rest) flags =
        ctMatchTypes interp rest { flags with
          usedDefcon := flags.usedDefcon || (slot.native.isNone && decide (slot.defcon ≠ .none))
          allNative := flags.allNative && slot.native.isSome })
  | breaks (wrong : WrongKind slot arg) (possible : Bool)
      (stops : ctMatchTypes interp ((slot, arg) :: rest) flags = { flags with
          typeMismatch := true
          typeMatchPossible := flags.typeMatchPossible && possible })
  | mismatch (possible : Bool) (unfit : ¬ CtFits interp slot arg)
      (rejected : possible = false → TypesRejected interp slot arg)
      (continues : ctMatchTypes interp ((slot, arg) :: rest) flags =
        ctMatchTypes interp rest { flags with
          typeMismatch := true
          typeMatchPossible := flags.typeMatchPossible && possible
          allNative := false })

theorem ctMatchStep (slot : TypeSlot Ty Val) (arg : CtArg Ty)
    (rest : List (TypeSlot Ty Val × CtArg Ty)) (flags : CtMatch) :
    CtMatchStep interp slot arg rest flags := by
  cases native : slot.native with
  | some kind =>
    cases arg with
    | object type =>
      exact .breaks ⟨kind, native, by simp⟩ true (by simp [ctMatchTypes, native])
    | native got =>
      by_cases same : got = kind
      · refine .fits (by simp [CtFits, native, same]) ?_
        simp [ctMatchTypes, native, same]
      · exact .breaks ⟨kind, native, by simpa using same⟩ false
          (by simp [ctMatchTypes, native, same])
  | none =>
    by_cases fits : slot.type = interp.mu ∨
        interp.typeCheck (arg.boxedType interp) false slot.type = true
    · refine .fits (by simpa [CtFits, native] using fits) ?_
      rcases fits with isMu | checked
      · by_cases noDefcon : slot.defcon = .none <;> simp [ctMatchTypes, native, isMu, noDefcon]
      · by_cases noDefcon : slot.defcon = .none <;> simp [ctMatchTypes, native, checked, noDefcon]
    rw [not_or, Bool.not_eq_true] at fits
    refine .mismatch (interp.typeCheck slot.type false (arg.boxedType interp))
      (by simp [CtFits, native, fits])
      (fun flipped => ⟨native, fits.1, fits.2, flipped⟩) ?_
    simp [ctMatchTypes, native, fits]

theorem ctMatchTypes_typeMismatch : (ctMatchTypes interp pairs flags).typeMismatch = false ↔
      flags.typeMismatch = false ∧ ∀ pair ∈ pairs, CtFits interp pair.1 pair.2 := by
  induction pairs generalizing flags with
  | nil => simp [ctMatchTypes]
  | cons pair rest ih =>
    rcases pair with ⟨slot, arg⟩
    rcases @ctMatchStep _ _ _ interp slot arg rest flags with
      ⟨fits, continues⟩ | ⟨⟨kind, native, differs⟩, possible, stops⟩ |
        ⟨possible, unfit, _, continues⟩
    · rw [continues, ih]
      simp [fits]
    · rw [stops]
      simp [CtFits, native, differs]
    · rw [continues, ih]
      simp [unfit]

theorem ctMatchTypes_usedDefcon (fits : ∀ pair ∈ pairs, CtFits interp pair.1 pair.2) :
    (ctMatchTypes interp pairs flags).usedDefcon = false ↔ flags.usedDefcon = false ∧
        ∀ pair ∈ pairs, pair.1.native = none → pair.1.defcon = .none := by
  induction pairs generalizing flags with
  | nil => simp [ctMatchTypes]
  | cons pair rest ih =>
    rcases pair with ⟨slot, arg⟩
    have here := fits (slot, arg) (by simp)
    rcases @ctMatchStep _ _ _ interp slot arg rest flags with
      ⟨_, continues⟩ | ⟨⟨kind, native, differs⟩, _, _⟩ | ⟨_, unfit, _, _⟩
    · rw [continues, ih (forall_mem_cons.mp fits).2]
      simp only [Bool.or_eq_false_iff, Bool.and_eq_false_iff, forall_mem_cons]
      cases slot.native <;> simp [and_assoc]
    · simp [CtFits, native, differs] at here
    · exact absurd here unfit

theorem ctMatchTypes_allNative
    (allNative : (ctMatchTypes interp pairs flags).allNative = true) : flags.allNative = true ∧
      ((ctMatchTypes interp pairs flags).typeMismatch = true →
        flags.typeMismatch = true ∨ ∃ pair ∈ pairs, WrongKind pair.1 pair.2) := by
  induction pairs generalizing flags with
  | nil => exact ⟨allNative, .inl⟩
  | cons pair rest ih =>
    rcases pair with ⟨slot, arg⟩
    rcases @ctMatchStep _ _ _ interp slot arg rest flags with
      ⟨_, continues⟩ | ⟨wrong, _, stops⟩ | ⟨_, _, _, continues⟩
    · rw [continues] at allNative ⊢
      rcases ih allNative with ⟨before, ruledOut⟩
      simp only [Bool.and_eq_true] at before
      refine ⟨before.1, fun mismatch => ?_⟩
      rcases ruledOut mismatch with already | ⟨other, mem, wrong⟩
      · exact .inl already
      · exact .inr ⟨other, mem_cons_of_mem _ mem, wrong⟩
    · rw [stops] at allNative ⊢
      exact ⟨allNative, fun _ => .inr ⟨(slot, arg), by simp, wrong⟩⟩
    · rw [continues] at allNative
      cases (ih allNative).1

theorem ctMatchTypes_impossible
    (impossible : (ctMatchTypes interp pairs flags).typeMatchPossible = false) :
    flags.typeMatchPossible = false ∨ ∃ pair ∈ pairs,
      WrongKind pair.1 pair.2 ∨ TypesRejected interp pair.1 pair.2 := by
  induction pairs generalizing flags with
  | nil => exact .inl impossible
  | cons pair rest ih =>
    rcases pair with ⟨slot, arg⟩
    rcases @ctMatchStep _ _ _ interp slot arg rest flags with
      ⟨_, continues⟩ | ⟨wrong, _, stops⟩ | ⟨possible, _, rejected, continues⟩
    · rw [continues] at impossible
      rcases ih impossible with already | ⟨other, mem, why⟩
      · exact .inl already
      · exact .inr ⟨other, mem_cons_of_mem _ mem, why⟩
    · exact .inr ⟨(slot, arg), by simp, .inl wrong⟩
    rw [continues] at impossible
    rcases ih impossible with already | ⟨other, mem, why⟩
    · rcases Bool.and_eq_false_iff.mp already with already | flipped
      · exact .inl already
      · exact .inr ⟨(slot, arg), by simp, .inr (rejected flipped)⟩
    · exact .inr ⟨other, mem_cons_of_mem _ mem, why⟩

end

section

variable (interp : Interp Ty Val) (args : List (CtArg Ty))

/-- A candidate takes the arguments known by these types, its definedness
constraints apart. -/
def CtAdmits (info : CandidateInfo Ty Val Sub) : Prop :=
  arityAdmissible info args.length = true ∧ ∀ pair ∈ ctPairs info args, CtFits interp pair.1 pair.2

/-- A candidate that is certain to take them. -/
structure Certain (info : CandidateInfo Ty Val Sub) : Prop where
  admits : CtAdmits interp args info
  noDefcon : ∀ pair ∈ ctPairs info args, pair.1.native = none → pair.1.defcon = .none
  noBindCheck : info.bindCheck = false

/-- If the arity admits the candidate, the kind of a native parameter rules it
out. -/
def RuledOutByKind (info : CandidateInfo Ty Val Sub) : Prop :=
  arityAdmissible info args.length = true → ∃ pair ∈ ctPairs info args, WrongKind pair.1 pair.2

/-- If the arity admits the candidate, native kinds or types rule it out. -/
def RuledOut (info : CandidateInfo Ty Val Sub) : Prop :=
  arityAdmissible info args.length = true → ∃ pair ∈ ctPairs info args,
      WrongKind pair.1 pair.2 ∨ TypesRejected interp pair.1 pair.2

/-- Everything that considering a candidate can do to the state. -/
structure CtEffect (info : CandidateInfo Ty Val Sub) (state next : CtState Sub) : Prop where
  result : (¬ CtAdmits interp args info ∧ next.curResult = state.curResult) ∨
    (Certain interp args info ∧ state.curResult = none ∧ next.curResult = some info.sub)
  allNative : next.allNative = true → state.allNative = true ∧
    (¬ CtAdmits interp args info → RuledOutByKind args info)
  arityPossible : next.arityPossible = false → state.arityPossible = false ∧
    arityAdmissible info args.length = false
  typePossible : next.typePossible = false → state.typePossible = false ∧ RuledOut interp args info

variable {interp args} {info : CandidateInfo Ty Val Sub} {state next : CtState Sub}
  {group : List (CandidateInfo Ty Val Sub)} {groups : List (List (CandidateInfo Ty Val Sub))}
  {result : Sub}

theorem ctCandidate_effect (considered : ctCandidate interp args state info = some next) :
    CtEffect interp args info state next := by
  unfold ctCandidate at considered
  split at considered
  case isFalse inadmissible =>
    cases considered
    exact
      { result := .inl ⟨fun admits => inadmissible admits.1, rfl⟩
        allNative := fun native => ⟨native, fun _ arity => absurd arity inadmissible⟩
        arityPossible := fun possible => ⟨possible, by simpa using inadmissible⟩
        typePossible := fun possible =>
          ⟨possible, fun arity => absurd arity inadmissible⟩ }
  case isTrue arity =>
    dsimp only at considered
    generalize isFlags : ctMatchTypes interp (ctPairs info args)
      ⟨false, true, false, state.allNative⟩ = flags at considered
    have fitsIff : flags.typeMismatch = false ↔
        ∀ pair ∈ ctPairs info args, CtFits interp pair.1 pair.2 := by
      rw [← isFlags, ctMatchTypes_typeMismatch]
      simp
    have native : flags.allNative = true → state.allNative = true ∧
        (¬ CtAdmits interp args info → RuledOutByKind args info) := by
      intro allNative
      rw [← isFlags] at allNative
      rcases ctMatchTypes_allNative allNative with ⟨before, ruledOut⟩
      refine ⟨before, fun unfit _ => ?_⟩
      have mismatch : flags.typeMismatch = true := by
        rw [← Bool.not_eq_false]
        exact fun fits => unfit ⟨arity, fitsIff.mp fits⟩
      rw [← isFlags] at mismatch
      exact (ruledOut mismatch).resolve_left (by simp)
    have types : (state.typePossible || flags.typeMatchPossible) = false →
        state.typePossible = false ∧ RuledOut interp args info := by
      intro possible
      rw [Bool.or_eq_false_iff, ← isFlags] at possible
      exact ⟨possible.1, fun _ =>
        (ctMatchTypes_impossible possible.2).resolve_left (by simp)⟩
    split at considered
    case isTrue mismatch =>
      cases considered
      refine ⟨.inl ⟨fun admits => ?_, rfl⟩, native, fun impossible => ?_, types⟩
      · rw [fitsIff.mpr admits.2] at mismatch
        cases mismatch
      · cases impossible
    case isFalse noMismatch =>
      have fits := fitsIff.mp (by simpa using noMismatch)
      split at considered
      case isTrue => cases considered
      case isFalse sure =>
        rw [Bool.or_eq_true, not_or, Bool.not_eq_true, Bool.not_eq_true, ← isFlags] at sure
        have certain : Certain interp args info :=
          { admits := ⟨arity, fits⟩
            noDefcon := ((ctMatchTypes_usedDefcon fits).mp sure.1).2
            noBindCheck := sure.2 }
        split at considered
        case h_1 noResult =>
          cases considered
          refine ⟨.inr ⟨certain, noResult, rfl⟩, native, fun impossible => ?_, types⟩
          cases impossible
        case h_2 => cases considered

theorem ctGroup_of_result (present : state.curResult = some result)
    (searched : ctGroup interp args group state = some next) :
    next.curResult = some result ∧ ∀ info ∈ group, ¬ CtAdmits interp args info := by
  induction group generalizing state with
  | nil =>
    cases searched
    exact ⟨present, by simp⟩
  | cons info rest ih =>
    rcases Option.bind_eq_some_iff.mp searched with ⟨middle, considered, searched⟩
    rcases (ctCandidate_effect considered).result with
      ⟨unfit, same⟩ | ⟨_, absent, _⟩
    · rcases ih (same.trans present) searched with ⟨final, others⟩
      exact ⟨final, forall_mem_cons.mpr ⟨unfit, others⟩⟩
    · rw [present] at absent
      cases absent

theorem ctGroup_result (fresh : state.curResult = none)
    (searched : ctGroup interp args group state = some next) :
    (next.curResult = none ∧ ∀ info ∈ group, ¬ CtAdmits interp args info) ∨
      ∃ before info after, group = before ++ info :: after ∧
        next.curResult = some info.sub ∧ Certain interp args info ∧
          ∀ rival ∈ before ++ after, ¬ CtAdmits interp args rival := by
  induction group generalizing state with
  | nil =>
    cases searched
    exact .inl ⟨fresh, by simp⟩
  | cons first rest ih =>
    rcases Option.bind_eq_some_iff.mp searched with ⟨middle, considered, searched⟩
    rcases (ctCandidate_effect considered).result with
      ⟨unfit, same⟩ | ⟨certain, _, took⟩
    · rcases ih (same.trans fresh) searched with
        ⟨final, others⟩ | ⟨before, info, after, rfl, final, certain, others⟩
      · exact .inl ⟨final, forall_mem_cons.mpr ⟨unfit, others⟩⟩
      · exact .inr ⟨first :: before, info, after, rfl, final, certain,
          forall_mem_cons.mpr ⟨unfit, others⟩⟩
    · rcases ctGroup_of_result took searched with ⟨final, others⟩
      exact .inr ⟨[], first, rest, rfl, final, certain, others⟩

theorem forall_cons_of_flags {α : Type} {P : α → Prop} {info : α} {rest : List α}
    {before between after : Prop} (here : between → before ∧ P info)
    (others : after → between ∧ ∀ other ∈ rest, P other) (flag : after) :
    before ∧ ∀ other ∈ info :: rest, P other :=
  ⟨(here (others flag).1).1, forall_mem_cons.mpr ⟨(here (others flag).1).2, (others flag).2⟩⟩

theorem ctGroup_flags (searched : ctGroup interp args group state = some next) :
    (next.allNative = true → state.allNative = true ∧
        ∀ info ∈ group, ¬ CtAdmits interp args info → RuledOutByKind args info) ∧
      (next.arityPossible = false → state.arityPossible = false ∧
        ∀ info ∈ group, arityAdmissible info args.length = false) ∧
      (next.typePossible = false → state.typePossible = false ∧
        ∀ info ∈ group, RuledOut interp args info) := by
  induction group generalizing state with
  | nil =>
    cases searched
    simp
  | cons info rest ih =>
    rcases Option.bind_eq_some_iff.mp searched with ⟨middle, considered, searched⟩
    have effect := ctCandidate_effect considered
    rcases ih searched with ⟨native, arity, types⟩
    exact ⟨forall_cons_of_flags effect.allNative native,
      forall_cons_of_flags effect.arityPossible arity,
      forall_cons_of_flags effect.typePossible types⟩

theorem ctGroups_decided {seenAll : Bool} (fresh : state.curResult = none)
    (searched : ctGroups interp args groups state = some (next, seenAll))
    (decided : next.curResult = some result) : ∃ earlier before info after later,
      groups = earlier ++ (before ++ info :: after) :: later ∧
        (∀ group ∈ earlier, ∀ other ∈ group, RuledOutByKind args other) ∧
          info.sub = result ∧ Certain interp args info ∧
            ∀ rival ∈ before ++ after, ¬ CtAdmits interp args rival := by
  induction groups generalizing state with
  | nil =>
    cases searched
    rw [fresh] at decided
    cases decided
  | cons group rest ih =>
    rcases Option.bind_eq_some_iff.mp searched with ⟨middle, inGroup, searched⟩
    rcases ctGroup_result fresh inGroup with
      ⟨noResult, unfit⟩ | ⟨before, info, after, isGroup, took, certain, others⟩
    · split at searched
      · cases searched
        rw [noResult] at decided
        cases decided
      split at searched
      case isTrue goesOn =>
        rw [Bool.and_eq_true] at goesOn
        rcases ih noResult searched with ⟨earlier, before, info, after, later, rfl, ruledOut, rest⟩
        refine ⟨group :: earlier, before, info, after, later, rfl, ?_, rest⟩
        have here := ((ctGroup_flags inGroup).1 goesOn.1).2
        exact forall_mem_cons.mpr ⟨fun other mem => here other mem (unfit other mem), ruledOut⟩
      case isFalse =>
        cases searched
        rw [noResult] at decided
        cases decided
    · have isResult : info.sub = result := by
        split at searched
        · cases searched
          rw [took] at decided
          exact Option.some.inj decided
        simp only [took, Option.isNone_some, Bool.and_false, Bool.false_eq_true,
          if_false, Option.some.injEq, Prod.mk.injEq] at searched
        rw [← searched.1, took] at decided
        exact Option.some.inj decided
      exact ⟨[], before, info, after, rest, by rw [isGroup, nil_append],
        by simp, isResult, certain, others⟩

theorem ctGroups_seenAll (searched : ctGroups interp args groups state = some (next, true)) :
    (next.arityPossible = false → state.arityPossible = false ∧
        ∀ group ∈ groups, ∀ info ∈ group, arityAdmissible info args.length = false) ∧
      (next.typePossible = false → state.typePossible = false ∧
        ∀ group ∈ groups, ∀ info ∈ group, RuledOut interp args info) := by
  induction groups generalizing state with
  | nil =>
    cases searched
    simp
  | cons group rest ih =>
    rcases Option.bind_eq_some_iff.mp searched with ⟨middle, inGroup, searched⟩
    rcases ctGroup_flags inGroup with ⟨_, arityHere, typesHere⟩
    split at searched
    case isTrue last =>
      cases searched
      rw [List.isEmpty_iff] at last
      subst last
      simpa using ⟨arityHere, typesHere⟩
    case isFalse more =>
      split at searched
      case isTrue =>
        rcases ih searched with ⟨arity, types⟩
        exact ⟨forall_cons_of_flags arityHere arity, forall_cons_of_flags typesHere types⟩
      case isFalse => cases searched

end

variable {interp : Interp Ty Val}

section

variable {arg : CtArg Ty} {value : BindVal Val} {slot : TypeSlot Ty Val} {args : List (CtArg Ty)}
  {values : List (BindVal Val)} {info : CandidateInfo Ty Val Sub}

omit [DecidableEq Ty] in
theorem argType_isSubtype (lattice : interp.TypeLattice)
    (instanceOf : InstanceOf interp arg value) :
    interp.IsSubtype (argType interp value).1 (arg.boxedType interp) := by
  cases instanceOf with
  | object _ _ below => exact below
  | native isKind =>
    cases value <;> cases isKind <;> exact lattice.refl _

theorem argMatches_of_fits (lattice : interp.TypeLattice)
    (instanceOf : InstanceOf interp arg value) (fits : CtFits interp slot arg)
    (noDefcon : slot.native = none → slot.defcon = .none) :
    argMatches interp slot value = true := by
  cases native : slot.native with
  | some kind =>
    simp only [CtFits, native] at fits
    subst fits
    cases instanceOf with
    | native isKind => simp [argMatches, native, isKind]
  | none =>
    have checked : slot.type = interp.mu ∨ interp.typeCheck (argType interp value).1
        (argType interp value).2 slot.type = true := by
      simp only [CtFits, native] at fits
      exact fits.imp_right fun fits =>
        lattice.check_of_subtype _ (argType_isSubtype lattice instanceOf) fits
    simpa [argMatches, native, noDefcon native] using checked

theorem argMatches_of_wrongKind (instanceOf : InstanceOf interp arg value)
    (wrong : WrongKind slot arg) : argMatches interp slot value = false := by
  rcases wrong with ⟨kind, native, differs⟩
  cases instanceOf with
  | object _ _ _ => simp [argMatches, native, BindVal.nativeKind]
  | native isKind => simpa [argMatches, native, isKind] using differs

theorem argMatches_of_disjoint (lattice : interp.TypeLattice)
    (instanceOf : InstanceOf interp arg value) (noNative : slot.native = none)
    (notMu : slot.type ≠ interp.mu)
    (disjoint : ∀ type, interp.IsSubtype type (arg.boxedType interp) →
      ¬ interp.IsSubtype type slot.type) : argMatches interp slot value = false := by
  have unchecked := disjoint _ (argType_isSubtype lattice instanceOf)
  rw [Interp.IsSubtype, ← lattice.concreteness _ (argType interp value).2,
    Bool.not_eq_true] at unchecked
  simp [argMatches, noNative, notMu, unchecked]

theorem exists_related_of_mem_zip {α β γ : Type} {R : α → β → Prop} {xs : List α} {ys : List β}
    {slots : List γ} {slot : γ} {x : α} (related : List.Forall₂ R xs ys)
    (mem : (slot, x) ∈ slots.zip xs) : ∃ y, R x y ∧ (slot, y) ∈ slots.zip ys := by
  induction related generalizing slots with
  | nil => simp at mem
  | cons first _ ih =>
    cases slots with
    | nil => simp at mem
    | cons head slots =>
      rw [zip_cons_cons, mem_cons] at mem
      rcases mem with isFirst | mem
      · cases isFirst
        exact ⟨_, first, by simp⟩
      · rcases ih mem with ⟨y, pair, mem⟩
        exact ⟨y, pair, mem_cons_of_mem _ mem⟩

theorem admissible_of_certain (lattice : interp.TypeLattice)
    (instances : List.Forall₂ (InstanceOf interp) args values)
    (certain : Certain interp args info) : admissible interp info values = true := by
  rw [admissible, Bool.and_eq_true, ← instances.length_eq, all_eq_true]
  constructor
  · exact certain.admits.1
  intro pair mem
  obtain ⟨arg, instanceOf, mem⟩ := exists_related_of_mem_zip instances.flip mem
  exact argMatches_of_fits lattice instanceOf (certain.admits.2 _ mem) (certain.noDefcon _ mem)

theorem inadmissible_of_unmatched (instances : List.Forall₂ (InstanceOf interp) args values)
    (unmatched : arityAdmissible info args.length = true →
      ∃ pair ∈ ctPairs info args, ∀ value, InstanceOf interp pair.2 value →
        argMatches interp pair.1 value = false) : admissible interp info values = false := by
  rw [admissible, ← instances.length_eq]
  cases arity : arityAdmissible info args.length with
  | false => rfl
  | true =>
    rcases unmatched arity with ⟨⟨slot, arg⟩, mem, never⟩
    rcases exists_related_of_mem_zip instances mem with ⟨value, instanceOf, mem⟩
    rw [Bool.true_and, ← Bool.not_eq_true, all_eq_true]
    intro all
    have matched := all _ mem
    dsimp only at matched
    rw [never value instanceOf] at matched
    cases matched

theorem inadmissible_of_ruledOutByKind (instances : List.Forall₂ (InstanceOf interp) args values)
    (ruledOut : RuledOutByKind args info) : admissible interp info values = false := by
  refine inadmissible_of_unmatched instances fun arity => ?_
  rcases ruledOut arity with ⟨pair, mem, wrong⟩
  exact ⟨pair, mem, fun value instanceOf => argMatches_of_wrongKind instanceOf wrong⟩

end

section

variable {routines : Routines Ty Val Sub}

/-- No rival in the tied group disputes a candidate at run time. -/
structure Undisputed (interp : Interp Ty Val) (routines : Routines Ty Val Sub)
    (bindCheck : BindCheck Ty Val Sub) (args : Args Val)
    (group : List (CandidateInfo Ty Val Sub)) (sub : Sub) : Prop where
  returns : ∀ rival ∈ group, admissible interp rival args.positionals = true →
    CheckReturns bindCheck args rival
  unrivalled : (∀ rival ∈ group, rival.sub ≠ sub → admissible interp rival args.positionals = true →
        survives bindCheck args rival = false) ∨
    routines.isDefault sub = true ∧ ∀ rival ∈ group, rival.sub ≠ sub →
      routines.isDefault rival.sub = true → admissible interp rival args.positionals = true →
          survives bindCheck args rival = false

/-- The admissible candidates of a group that are not eliminated at its end. -/
def survivors (interp : Interp Ty Val) (bindCheck : BindCheck Ty Val Sub)
    (args : Args Val) (group : List (CandidateInfo Ty Val Sub)) : List (CandidateInfo Ty Val Sub) :=
  (group.filter fun info => admissible interp info args.positionals).filter
    (survives bindCheck args)

section

variable {bindCheck : BindCheck Ty Val Sub} {args : Args Val}
  {before after : List (CandidateInfo Ty Val Sub)} {info : CandidateInfo Ty Val Sub}
  {later : List (List (CandidateInfo Ty Val Sub))}

theorem survivors_of_member (admits : admissible interp info args.positionals = true)
    (remains : survives bindCheck args info = true) :
    survivors interp bindCheck args (before ++ info :: after) =
      survivors interp bindCheck args before ++ info :: survivors interp bindCheck args after := by
  simp [survivors, filter_append, admits, remains]

theorem mem_survivors_beside (distinct : ∀ rival ∈ before ++ after, rival.sub ≠ info.sub)
    (rival : CandidateInfo Ty Val Sub) : rival ∈ survivors interp bindCheck args before ++
        survivors interp bindCheck args after ↔
      rival ∈ before ++ info :: after ∧ rival.sub ≠ info.sub ∧
        admissible interp rival args.positionals = true ∧ survives bindCheck args rival = true := by
  have listed : rival ∈ survivors interp bindCheck args before ++
        survivors interp bindCheck args after ↔
      rival ∈ before ++ after ∧ admissible interp rival args.positionals = true ∧
        survives bindCheck args rival = true := by
    simp only [survivors, mem_append, mem_filter]
    tauto
  rw [listed]
  constructor
  · rintro ⟨mem, rest⟩
    refine ⟨?_, distinct rival mem, rest⟩
    rcases mem_append.mp mem with mem | mem
    · exact mem_append_left _ mem
    · exact mem_append_right _ (mem_cons_of_mem _ mem)
  rintro ⟨mem, other, rest⟩
  refine ⟨?_, rest⟩
  rcases mem_append.mp mem with mem | mem
  · exact mem_append_left _ mem
  rcases mem_cons.mp mem with rfl | mem
  · exact absurd rfl other
  · exact mem_append_right _ mem

theorem searchGroups_of_member {kept : List (CandidateInfo Ty Val Sub)} {pureTypeResult : Bool}
    (admits : admissible interp info args.positionals = true)
    (remains : survives bindCheck args info = true) :
    searchGroups interp bindCheck args ((before ++ info :: after) :: later) true =
        .ok (kept, pureTypeResult) ↔
      settleGroup bindCheck args ((before ++ info :: after).filter fun info =>
          admissible interp info args.positionals) = .ok (kept, pureTypeResult) := by
  have nonempty : ∀ kept pureTypeResult,
      settleGroup bindCheck args ((before ++ info :: after).filter fun info =>
          admissible interp info args.positionals) = .ok (kept, pureTypeResult) →
        kept.isEmpty = false := by
    intro kept pureTypeResult settled
    have isKept : kept = survivors interp bindCheck args (before ++ info :: after) :=
      (settleGroup_ok_iff.mp ⟨pureTypeResult, settled⟩).2
    rw [isKept, survivors_of_member admits remains]
    simp
  simp only [searchGroups, Bool.true_and, Except.bind_eq_ok_iff]
  constructor
  · rintro ⟨⟨groupKept, groupPure⟩, settled, result⟩
    simp only [nonempty _ _ settled, Bool.false_eq_true, if_false, Except.ok.injEq,
      Prod.mk.injEq] at result
    rcases result with ⟨rfl, rfl⟩
    exact settled
  · intro settled
    exact ⟨(kept, pureTypeResult), settled, by simp [nonempty _ _ settled]⟩

theorem searchGroups_selects_iff (distinct : ∀ rival ∈ before ++ after, rival.sub ≠ info.sub)
    (admits : admissible interp info args.positionals = true)
    (remains : survives bindCheck args info = true) : (∃ kept pureTypeResult,
        searchGroups interp bindCheck args ((before ++ info :: after) :: later) true =
          .ok (kept, pureTypeResult) ∧
        ∃ chosen, applyDefault routines kept = [chosen] ∧ chosen.sub = info.sub) ↔
      Undisputed interp routines bindCheck args (before ++ info :: after) info.sub := by
  have beside := @mem_survivors_beside _ _ _ _ interp bindCheck args _ _ _ distinct
  have apart : ∀ rival ∈ survivors interp bindCheck args before ++
      survivors interp bindCheck args after, rival.sub ≠ info.sub :=
    fun rival mem => ((beside rival).mp mem).2.1
  simp only [searchGroups_of_member admits remains]
  constructor
  · rintro ⟨kept, pureTypeResult, settled, chosen⟩
    rcases settleGroup_ok_iff.mp ⟨pureTypeResult, settled⟩ with ⟨returns, isKept⟩
    change kept = survivors interp bindCheck args (before ++ info :: after) at isKept
    rw [isKept, survivors_of_member admits remains, applyDefault_eq_singleton_iff apart] at chosen
    refine ⟨fun rival mem admitted => returns rival (mem_filter.mpr ⟨mem, admitted⟩), ?_⟩
    rcases chosen with alone | ⟨isDefault, others⟩
    · refine .inl fun rival mem other admitted => ?_
      rw [← Bool.not_eq_true]
      intro survivor
      have listed := (beside rival).mpr ⟨mem, other, admitted, survivor⟩
      rw [alone] at listed
      cases listed
    refine .inr ⟨isDefault, fun rival mem other alsoDefault admitted => ?_⟩
    rw [← Bool.not_eq_true]
    intro survivor
    have notDefault := others rival ((beside rival).mpr ⟨mem, other, admitted, survivor⟩)
    rw [alsoDefault] at notDefault
    cases notDefault
  · intro undisputed
    have returns : ∀ rival ∈ (before ++ info :: after).filter fun info =>
        admissible interp info args.positionals, CheckReturns bindCheck args rival :=
      fun rival mem => undisputed.returns rival (mem_filter.mp mem).1
        (mem_filter.mp mem).2
    rcases settleGroup_ok_iff.mpr ⟨returns, rfl⟩ with ⟨pureTypeResult, settled⟩
    refine ⟨_, pureTypeResult, settled, ?_⟩
    change ∃ chosen, applyDefault routines
      (survivors interp bindCheck args (before ++ info :: after)) = [chosen] ∧ _
    rw [survivors_of_member admits remains, applyDefault_eq_singleton_iff apart]
    rcases undisputed.unrivalled with alone | ⟨isDefault, others⟩
    · left
      refine eq_nil_iff_forall_not_mem.mpr fun rival mem => ?_
      rcases (beside rival).mp mem with ⟨mem, other, admitted, survivor⟩
      rw [alone rival mem other admitted] at survivor
      cases survivor
    refine .inr ⟨isDefault, fun rival mem => ?_⟩
    rcases (beside rival).mp mem with ⟨mem, other, admitted, survivor⟩
    rw [← Bool.not_eq_true]
    intro alsoDefault
    rw [others rival mem other alsoDefault admitted] at survivor
    cases survivor

end

/-- A dispatch returns a candidate exactly when the search leaves it alone. -/
theorem findBestCandidate_candidate_iff {bindCheck : BindCheck Ty Val Sub}
    {args : Args Val} {candidates : CandidateList Ty Val Sub}
    {cache : Cache Ty Val Sub} {sub : Sub} :
    (findBestCandidate interp bindCheck args routines candidates cache).1 = .ok (.candidate sub) ↔
      ∃ kept pureTypeResult, searchGroups interp bindCheck args (tiedGroups candidates) true =
          .ok (kept, pureTypeResult) ∧
        ∃ chosen, applyDefault routines kept = [chosen] ∧ chosen.sub = sub := by
  rw [findBestCandidate_fst, Except.map_eq_ok_iff]
  simp only [selectBest, collectPossibles_eq_tiedGroups, Except.bind_eq_ok_iff]
  constructor
  · rintro ⟨⟨target, cacheable⟩, ⟨⟨kept, pureTypeResult⟩, searched, finished⟩, rfl⟩
    refine ⟨kept, pureTypeResult, searched, ?_⟩
    split at finished
    case h_1 chosen single =>
      simp only [Except.ok.injEq, Prod.mk.injEq, Target.candidate.injEq] at finished
      exact ⟨chosen, single, finished.1⟩
    case h_2 =>
      split at finished
      · simp at finished
      · cases finished
    case h_3 => cases finished
  rintro ⟨kept, pureTypeResult, searched, chosen, single, rfl⟩
  refine ⟨(.candidate chosen.sub,
    pureTypeResult && decide (args.positionals.length ≤ mdCacheMaxArity)),
    ⟨(kept, pureTypeResult), searched, ?_⟩, rfl⟩
  rw [single]

/-- Where the dispatch was decided at compile time, the decided candidate is
the one of its tied group that the run-time dispatch returns, exactly when no
other candidate of that group disputes it. -/
theorem findBestCandidate_of_ctDispatch_decided (lattice : interp.TypeLattice)
    {dispatchees : List Sub} {candidates : CandidateList Ty Val Sub}
    {ctArgs : List (CtArg Ty)} {sub : Sub}
    (sorts : sortCandidates interp routines dispatchees = .ok candidates)
    (decided : ctDispatch interp candidates ctArgs = .decided sub) :
    ∃ group ∈ tiedGroups candidates, (∃ info ∈ group, info.sub = sub) ∧
      ∀ (bindCheck : BindCheck Ty Val Sub) (args : Args Val),
        List.Forall₂ (InstanceOf interp) ctArgs args.positionals →
          ((findBestCandidate interp bindCheck args routines candidates
              (Cache.empty candidates)).1 = .ok (.candidate sub) ↔
            Undisputed interp routines bindCheck args group sub) := by
  unfold ctDispatch at decided
  split at decided
  case h_1 => cases decided
  case h_2 state seenAll searched =>
    have result : state.curResult = some sub := by
      split at decided
      · split at decided <;> cases decided
      split at decided
      case h_1 result => simpa [result] using decided
      case h_2 => cases decided
    rw [ctSearch_eq_ctGroups] at searched
    rcases ctGroups_decided rfl searched result with
      ⟨earlier, before, info, after, later, groups, ruledOut, rfl, certain, unfit⟩
    refine ⟨before ++ info :: after, by simp [groups], ⟨info, by simp, rfl⟩, ?_⟩
    have isInfo : ∀ group ∈ tiedGroups candidates, ∀ other ∈ group,
        other = candidateInfo interp routines other.sub := by
      intro group isGroup other mem
      rcases mem_sortCandidates sorts (mem_of_mem_tiedGroups isGroup mem) with ⟨sub, _, rfl⟩
      rw [candidateInfo_sub]
    have inGroup : before ++ info :: after ∈ tiedGroups candidates := by simp [groups]
    have distinct : ∀ rival ∈ before ++ after, rival.sub ≠ info.sub := by
      intro rival mem same
      refine unfit rival mem ?_
      have rivalInGroup : rival ∈ before ++ info :: after := by
        rcases mem_append.mp mem with mem | mem
        · exact mem_append_left _ mem
        · exact mem_append_right _ (mem_cons_of_mem _ mem)
      rw [isInfo _ inGroup rival rivalInGroup, same, ← isInfo _ inGroup info (by simp)]
      exact certain.admits
    intro bindCheck args instances
    have remains : survives bindCheck args info = true := by
      have notRequired : info.reqNamed = none := by
        have checked := candidateInfo_namedChecked interp routines info.sub
        rw [← isInfo _ inGroup info (by simp)] at checked
        by_contra required
        have needed := checked (Option.isSome_iff_ne_none.mpr required)
        rw [certain.noBindCheck] at needed
        cases needed
      simp [survives, namedPassed, notRequired, certain.noBindCheck]
    rw [findBestCandidate_candidate_iff, groups]
    simp only [searchGroups_skip fun group mem other inEarlier =>
      inadmissible_of_ruledOutByKind instances (ruledOut group mem other inEarlier)]
    exact searchGroups_selects_iff distinct
      (admissible_of_certain lattice instances certain) remains

/-- `multi f(Alpha $x)` called with an argument known to be an `Alpha`. -/
theorem findBestCandidate_of_ctDispatch_decided_alpha :
    ∃ group ∈ tiedGroups Diamond.alphaCandidates,
      (∃ info ∈ group, info.sub = Diamond.multi [.alpha]) ∧
      ∀ (bindCheck : BindCheck Diamond.Ty Diamond.Val _) (args : Args Diamond.Val),
        List.Forall₂ (InstanceOf Diamond.interp) [.object .alpha] args.positionals →
          ((findBestCandidate Diamond.interp bindCheck args Diamond.routines
              Diamond.alphaCandidates (Cache.empty Diamond.alphaCandidates)).1 =
                .ok (.candidate (Diamond.multi [.alpha])) ↔
            Undisputed Diamond.interp Diamond.routines bindCheck args group
              (Diamond.multi [.alpha])) :=
  @findBestCandidate_of_ctDispatch_decided _ _ _ _ Diamond.interp Diamond.routines
    Diamond.typeLattice [Diamond.multi [.alpha]] Diamond.alphaCandidates
    [.object .alpha] (Diamond.multi [.alpha]) rfl rfl

/-- `multi f(Alpha $x, Any $y)` and `multi f(Any $x, Beta $y)` called with an
`Any` and a `Beta`: the second one is chosen at compile time, but when the `Any`
turns out to be an `Alpha` the call is ambiguous. -/
theorem ctDispatch_decided_overlooks_rival :
    ¬ ∀ (dispatchees : List (List (Parameter Diamond.Ty Diamond.Val)))
      (candidates : CandidateList Diamond.Ty Diamond.Val _)
      (ctArgs : List (CtArg Diamond.Ty)) (sub : List (Parameter Diamond.Ty Diamond.Val))
      (values : List (BindVal Diamond.Val)),
      sortCandidates Diamond.interp Diamond.routines dispatchees = .ok candidates →
        ctDispatch Diamond.interp candidates ctArgs = .decided sub →
          List.Forall₂ (InstanceOf Diamond.interp) ctArgs values →
            (findBestCandidate Diamond.interp (fun _ => .ok true) ⟨values, none⟩
              Diamond.routines candidates (Cache.empty candidates)).1 = .ok (.candidate sub) := by
  intro sound
  have chosen := sound [Diamond.multi [.alpha, .any], Diamond.multi [.any, .beta]] _
    [.object .any, .object .beta] (Diamond.multi [.any, .beta])
    [.obj ⟨.alpha, true⟩, .obj ⟨.beta, true⟩] rfl rfl
    (.cons (.object rfl rfl (by decide)) (.cons (.object rfl rfl (by decide)) .nil))
  cases chosen

end

section

variable {candidates : CandidateList Ty Val Sub}

def NoCommonSubtype (interp : Interp Ty Val) (first second : Ty) : Prop :=
  ∀ type, interp.IsSubtype type first → ¬ interp.IsSubtype type second

/-- Where types ruled out a candidate, they did so rightly. -/
def RightlyRejected (interp : Interp Ty Val) (args : List (CtArg Ty))
    (info : CandidateInfo Ty Val Sub) : Prop :=
  arityAdmissible info args.length = true →
    (∃ pair ∈ ctPairs info args, TypesRejected interp pair.1 pair.2) →
      ∃ pair ∈ ctPairs info args, WrongKind pair.1 pair.2 ∨ TypesRejected interp pair.1 pair.2 ∧
          NoCommonSubtype interp (pair.2.boxedType interp) pair.1.type

theorem inadmissible_of_ruledOut (lattice : interp.TypeLattice)
    {args : List (CtArg Ty)} {values : List (BindVal Val)} {info : CandidateInfo Ty Val Sub}
    (instances : List.Forall₂ (InstanceOf interp) args values)
    (ruledOut : RuledOut interp args info)
    (rightly : RightlyRejected interp args info) : admissible interp info values = false := by
  refine inadmissible_of_unmatched instances fun arity => ?_
  have why : ∃ pair ∈ ctPairs info args, WrongKind pair.1 pair.2 ∨
      TypesRejected interp pair.1 pair.2 ∧
        NoCommonSubtype interp (pair.2.boxedType interp) pair.1.type := by
    rcases ruledOut arity with ⟨pair, mem, wrong | rejected⟩
    · exact ⟨pair, mem, .inl wrong⟩
    · exact rightly arity ⟨pair, mem, rejected⟩
  rcases why with ⟨pair, mem, wrong | ⟨rejected, disjoint⟩⟩
  · exact ⟨pair, mem, fun value instanceOf => argMatches_of_wrongKind instanceOf wrong⟩
  · exact ⟨pair, mem, fun value instanceOf =>
      argMatches_of_disjoint lattice instanceOf rejected.1 rejected.2.1 disjoint⟩

theorem findBestCandidate_of_inadmissible {bindCheck : BindCheck Ty Val Sub}
    {args : Args Val} {routines : Routines Ty Val Sub} {cache : Cache Ty Val Sub}
    (inadmissible : ∀ group ∈ tiedGroups candidates, ∀ info ∈ group,
      admissible interp info args.positionals = false)
    (noJunctions : hasJunctionalArgs interp args.positionals = false) :
    ∃ exception, (findBestCandidate interp bindCheck args routines candidates
      cache).1 = .error exception := by
  have searched : searchGroups interp bindCheck args (tiedGroups candidates) true =
      .ok ([], true) := by
    have skipped := @searchGroups_skip _ _ _ _ interp bindCheck args _ inadmissible [] true
    rwa [append_nil] at skipped
  rw [findBestCandidate_fst, selectBest, collectPossibles_eq_tiedGroups, searched]
  simp [applyDefault, noJunctions, Except.map]

/-- What could never work fails at run time, if types ruled out rightly. -/
theorem findBestCandidate_of_ctDispatch_noWay (lattice : interp.TypeLattice)
    {ctArgs : List (CtArg Ty)} (noWay : ctDispatch interp candidates ctArgs = .noWay)
    (rightly : ∀ info, some info ∈ candidates → RightlyRejected interp ctArgs info)
    (routines : Routines Ty Val Sub) (bindCheck : BindCheck Ty Val Sub)
    (args : Args Val) (cache : Cache Ty Val Sub)
    (instances : List.Forall₂ (InstanceOf interp) ctArgs args.positionals)
    (noJunctions : hasJunctionalArgs interp args.positionals = false) :
    ∃ exception, (findBestCandidate interp bindCheck args routines candidates
      cache).1 = .error exception := by
  refine findBestCandidate_of_inadmissible (fun group isGroup info mem => ?_) noJunctions
  unfold ctDispatch at noWay
  split at noWay
  case h_1 => cases noWay
  case h_2 state seenAll searched =>
    split at noWay
    case isFalse => split at noWay <;> cases noWay
    case isTrue flags =>
      simp only [Bool.and_eq_true, Bool.or_eq_true, Bool.not_eq_true'] at flags
      rcases flags with ⟨⟨rfl, impossible⟩, _⟩
      rw [ctSearch_eq_ctGroups] at searched
      rcases ctGroups_seenAll searched with ⟨byArity, byTypes⟩
      rcases impossible with noArity | noTypes
      · have arity := (byArity noArity).2 group isGroup info mem
        rw [admissible, ← instances.length_eq, arity, Bool.false_and]
      exact inadmissible_of_ruledOut lattice instances
        ((byTypes noTypes).2 group isGroup info mem)
        (rightly info (mem_of_mem_tiedGroups isGroup mem))

/-- Compile-time rejection is sound where types were rejected rightly: a call
that compile-time dispatch or trial binding gives up never gets through, if
what was rejected for its types has no subtype in common with its argument. -/
theorem compileTime_noWay_fails {runtime : Runtime Ty Val}
    (lattice : runtime.TypeLattice) (laws : BoxLaws runtime) :
    (∀ (routines : Routines Ty Val Sub) (candidates : CandidateList Ty Val Sub)
        (ctArgs : List (CtArg Ty)), ctDispatch runtime.toInterp candidates ctArgs = .noWay →
      (∀ info, some info ∈ candidates → RightlyRejected runtime.toInterp ctArgs info) →
      ∀ (bindCheck : BindCheck Ty Val Sub) (args : Args Val) (cache : Cache Ty Val Sub),
        List.Forall₂ (InstanceOf runtime.toInterp) ctArgs args.positionals →
        hasJunctionalArgs runtime.toInterp args.positionals = false →
        ∃ exception, (findBestCandidate runtime.toInterp bindCheck args routines
          candidates cache).1 = .error exception) ∧
      ∀ (signature : List (Parameter Ty Val)) (ctArgs : List (CtArg Ty)),
        trialBind runtime.toInterp (signature.map Parameter.param) ctArgs = .noWay →
        (∀ argType nominal, rejectedTypes runtime.toInterp (signature.map Parameter.param) ctArgs =
            some (argType, nominal) → NoCommonSubtype runtime.toInterp argType nominal) →
        ∀ (wantError : Bool) (capture : Capture Val) (args : Args Val)
          (lexpad : Lexpad Val), openCapture runtime capture = .ok args →
          List.Forall₂ (InstanceOf runtime.toInterp) ctArgs args.positionals →
          ∀ final, bind runtime wantError signature capture false lexpad ≠ .ok final := by
  constructor
  · intro routines candidates ctArgs noWay rightly bindCheck args cache instances noJunctions
    exact findBestCandidate_of_ctDispatch_noWay lattice noWay rightly routines bindCheck
      args cache instances noJunctions
  intro signature ctArgs noWay disjoint wantError capture args lexpad opened instances final bound
  simp only [Binder.bind, bindBindables, opened, Except.ok_bind] at bound
  exact bindLoop_of_noWay lattice laws noWay disjoint instances drop_zero rfl bound

/-- `multi f(Int $x)` and `sub f(Int $x)` called with a `Str`. -/
theorem compileTime_noWay_fails_int :
    (∃ exception, (findBestCandidate Diamond.interp (fun _ => .ok true)
      ⟨[.obj ⟨.str, true⟩], none⟩ Diamond.routines
      [some (candidateInfo Diamond.interp Diamond.routines (Diamond.multi [.int])), none,
        none] (Cache.empty [])).1 = .error exception) ∧
      ∀ final, bind Diamond.runtime true [.mk (Diamond.param .int []) none]
        (.callContext [.obj ⟨.str, true⟩] none) false Lexpad.empty ≠ .ok final := by
  have disjoint : NoCommonSubtype Diamond.interp .str .int := by
    intro type
    cases type <;> decide
  have sound := @compileTime_noWay_fails _ _
    (List (Parameter Diamond.Ty Diamond.Val)) _ _ Diamond.typeLattice Diamond.boxLaws
  have instances : List.Forall₂ (InstanceOf Diamond.interp) [.object .str]
      [.obj ⟨.str, true⟩] := .cons (.object rfl rfl (by decide)) .nil
  constructor
  · refine sound.1 Diamond.routines _ [.object .str] rfl (fun info mem _ _ => ?_) _ _ _
      instances rfl
    simp only [mem_cons, Option.some.injEq, reduceCtorEq, or_false, not_mem_nil] at mem
    subst mem
    exact ⟨_, mem_cons_self, .inr ⟨⟨rfl, by decide, rfl, rfl⟩, disjoint⟩⟩
  · refine sound.2 [.mk (Diamond.param .int []) none] [.object .str] rfl ?_ _ _ _ _ rfl instances
    rintro argType nominal ⟨⟩
    exact disjoint

/-- An argument known to be a `Beta` is rejected for a parameter of type `Alpha`,
although it may be a `Gamma`, which is both. -/
theorem noWay_overlooks_common_subtype : (¬ ∀ (candidates : CandidateList Diamond.Ty Diamond.Val
          (List (Parameter Diamond.Ty Diamond.Val)))
        (ctArgs : List (CtArg Diamond.Ty)) (values : List (BindVal Diamond.Val)),
      ctDispatch Diamond.interp candidates ctArgs = .noWay →
        List.Forall₂ (InstanceOf Diamond.interp) ctArgs values →
          ∃ exception, (findBestCandidate Diamond.interp (fun _ => .ok true)
            ⟨values, none⟩ Diamond.routines candidates (Cache.empty candidates)).1 =
              .error exception) ∧ ¬ ∀ (signature : List (Parameter Diamond.Ty Diamond.Val))
        (ctArgs : List (CtArg Diamond.Ty)) (values : List (BindVal Diamond.Val)),
      trialBind Diamond.interp (signature.map Parameter.param) ctArgs = .noWay →
        List.Forall₂ (InstanceOf Diamond.interp) ctArgs values →
          ∀ final, bind Diamond.runtime true signature (.callContext values none) false
            Lexpad.empty ≠ .ok final := by
  have instances : List.Forall₂ (InstanceOf Diamond.interp) [.object .beta]
      [.obj ⟨.gamma, true⟩] := .cons (.object rfl rfl (by decide)) .nil
  constructor
  · intro sound
    rcases sound Diamond.alphaCandidates [.object .beta] [.obj ⟨.gamma, true⟩] rfl
      instances with ⟨exception, failed⟩
    cases failed
  intro sound
  exact sound [.mk (Diamond.param .alpha []) none] [.object .beta]
    [.obj ⟨.gamma, true⟩] rfl instances _ rfl

end

end RakudoStar.Multi
