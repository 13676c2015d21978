import RakudoStar.Multi.Cache
import RakudoStar.Binder.Bind
import RakudoStar.SixModel.Diamond

/-!
# Run-time multi-dispatch

`find_best_candidate` and `Rakudo_md_dispatch` of `multidispatch.c`. A bindability check runs
arbitrary code, so each dispatch has its own; what the cache returns does not depend on it.
-/

namespace RakudoStar.Multi

open Binder List RakudoStar.Except

variable {Ty Val Sub : Type} [DecidableEq Ty]

/-- Does `Rakudo_binding_bind` to a candidate's signature return anything but a failure? -/
abbrev BindCheck (Ty Val Sub : Type) :=
  CandidateInfo Ty Val Sub → Except Exception Bool

/-- The checks that the binder makes; a crash is reported like an exception. -/
def binderCheck (runtime : Runtime Ty Val) (routines : Routines Ty Val Sub)
    (args : Args Val) : BindCheck Ty Val Sub := fun info =>
  match bind runtime false (routines.signature info.sub)
      (.callContext args.positionals args.named) false Lexpad.empty with
  | .ok _ => .ok true
  | .error (.junction _) => .ok true
  | .error (.fail _) => .ok false
  | .error (.thrown exception) => .error exception
  | .error .crash => .error ⟨"Segmentation fault"⟩

/-- What a dispatch hands back to be invoked. -/
inductive Target (Sub : Type)
  | candidate (sub : Sub)
  | junctionThreader
  deriving DecidableEq, Repr

section

variable (interp : Interp Ty Val)

/-- The type and the definedness of an argument. -/
def argType : BindVal Val → Ty × Bool
  | .obj object =>
    (interp.what (interp.decontainerize object), interp.isConcrete (interp.decontainerize object))
  | .int _ => (interp.intType, false)
  | .num _ => (interp.numType, false)
  | .str _ => (interp.strType, false)

/-- Is an argument defined?  Natives are. -/
def argDefined : BindVal Val → Bool
  | .obj object => interp.isConcrete (interp.decontainerize object)
  | _ => true

/-- Does an argument match the type, native kind and definedness recorded for
a parameter? -/
def argMatches (slot : TypeSlot Ty Val) (value : BindVal Val) : Bool :=
  match slot.native with
  | some kind => value.nativeKind = some kind
  | none =>
    let (type, concrete) := argType interp value
    (slot.type = interp.mu || interp.typeCheck type concrete slot.type) &&
      match slot.defcon with
      | .none => true
      | .defined => argDefined interp value
      | .undefined => !argDefined interp value

def arityAdmissible (info : CandidateInfo Ty Val Sub) (numArgs : Nat) : Bool :=
  info.minArity ≤ numArgs && numArgs ≤ info.maxArity

/-- Is a candidate admissible by arity and by type? -/
def admissible (info : CandidateInfo Ty Val Sub) (positionals : List (BindVal Val)) : Bool :=
  arityAdmissible info positionals.length &&
    ((info.slots.take info.numTypes).zip positionals).all fun (slot, value) =>
      argMatches interp slot value

end

section

variable (interp : Interp Ty Val) (bindCheck : BindCheck Ty Val Sub) (args : Args Val)

def namedPassed (args : Args Val) (info : CandidateInfo Ty Val Sub) : Bool :=
  info.reqNamed.all fun name => (namesOf args.named).contains name

/-- The end of a tied group. The flag says whether the result is purely type-based. -/
def settleGroup : List (CandidateInfo Ty Val Sub) →
    Except Exception (List (CandidateInfo Ty Val Sub) × Bool)
  | [] => .ok ([], true)
  | info :: rest =>
    if !namedPassed args info then do
      let (kept, _) ← settleGroup rest
      .ok (kept, false)
    else if info.bindCheck then do
      let bindable ← bindCheck info
      let (kept, _) ← settleGroup rest
      .ok (if bindable then info :: kept else kept, false)
    else do
      let (kept, pureTypeResult) ← settleGroup rest
      .ok (info :: kept, pureTypeResult)

/-- Collect the best candidates, up to the first tied group with one left. -/
def collectPossibles : CandidateList Ty Val Sub → List (CandidateInfo Ty Val Sub) →
    Bool → Except Exception (List (CandidateInfo Ty Val Sub) × Bool)
  | [], possibles, pureTypeResult => do
    let (kept, groupPure) ← settleGroup bindCheck args possibles
    .ok (kept, pureTypeResult && groupPure)
  | none :: rest, possibles, pureTypeResult => do
    let (kept, groupPure) ← settleGroup bindCheck args possibles
    if !kept.isEmpty then
      .ok (kept, pureTypeResult && groupPure)
    else
      match rest with
      | some _ :: _ => collectPossibles rest [] (pureTypeResult && groupPure)
      | _ => .ok ([], pureTypeResult && groupPure)
  | some info :: rest, possibles, pureTypeResult =>
    if admissible interp info args.positionals then
      collectPossibles rest (possibles ++ [info]) pureTypeResult
    else
      collectPossibles rest possibles pureTypeResult

/-- Locate the default candidate among several; multiple defaults are no
help. -/
def applyDefault (routines : Routines Ty Val Sub)
    (possibles : List (CandidateInfo Ty Val Sub)) : List (CandidateInfo Ty Val Sub) :=
  if possibles.length > 1 then
    match possibles.filter fun info => routines.isDefault info.sub with
    | [defaultCand] => [defaultCand]
    | _ => possibles
  else
    possibles

def hasJunctionalArgs (positionals : List (BindVal Val)) : Bool :=
  positionals.any fun
    | .obj object => interp.what (interp.decontainerize object) = interp.junction
    | _ => false

/-- The signatures of candidates, one on each line. -/
def dumpSignatures (routines : Routines Ty Val Sub)
    (infos : List (CandidateInfo Ty Val Sub)) : String :=
  String.join (infos.map fun info => routines.signaturePerl info.sub ++ "\n")

def firstName (routines : Routines Ty Val Sub) (candidates : CandidateList Ty Val Sub) : String :=
  match candidates with
  | some info :: _ => routines.name info.sub
  | _ => ""

/-- The search for the one winning candidate, and whether the result may be
cached. -/
def selectBest (routines : Routines Ty Val Sub)
    (candidates : CandidateList Ty Val Sub) : Except Exception (Target Sub × Bool) := do
  let (possibles, pureTypeResult) ←
    collectPossibles interp bindCheck args candidates [] true
  match applyDefault routines possibles with
  | [info] =>
    .ok (.candidate info.sub, pureTypeResult && decide (args.positionals.length ≤ mdCacheMaxArity))
  | [] =>
    if hasJunctionalArgs interp args.positionals then
      .ok (.junctionThreader, false)
    else
      .error ⟨s!"Cannot call '{firstName routines candidates}'; " ++
        s!"none of these signatures match:\n{dumpSignatures routines candidates.reduceOption}"⟩
  | ambiguous =>
    .error ⟨s!"Ambiguous call to '{firstName routines candidates}'; " ++
      s!"these signatures all match:\n{dumpSignatures routines ambiguous}"⟩

/-- `find_best_candidate`, which adds a purely type-based result to the
cache. -/
def findBestCandidate (routines : Routines Ty Val Sub)
    (candidates : CandidateList Ty Val Sub) (cache : Cache Ty Val Sub) :
    Except Exception (Target Sub) × Cache Ty Val Sub :=
  match selectBest interp bindCheck args routines candidates with
  | .error exception => (.error exception, cache)
  | .ok (.candidate sub, true) =>
    (.ok (.candidate sub), addToCache interp cache args.positionals sub)
  | .ok (target, _) => (.ok target, cache)

/-- `obtain_candidate_list`: the dispatcher cache, made on first use. -/
def obtainCache (routines : Routines Ty Val Sub) (dispatchees : List Sub)
    (dispatcherCache : Option (Cache Ty Val Sub)) : Except Exception (Cache Ty Val Sub) :=
  match dispatcherCache with
  | some cache => .ok cache
  | none => (sortCandidates interp routines dispatchees).map Cache.empty

/-- Look in the cache, where that is sane. -/
def cachedResult (dispatcherCache : Option (Cache Ty Val Sub))
    (positionals : List (BindVal Val)) : Option Sub :=
  match dispatcherCache with
  | none => none
  | some cache =>
    if positionals.length ≤ mdCacheMaxArity then
      findInCache interp cache positionals
    else
      none

/-- `Rakudo_md_dispatch`, with the new contents of the dispatcher cache. -/
def mdDispatch (routines : Routines Ty Val Sub) (dispatchees : List Sub)
    (dispatcherCache : Option (Cache Ty Val Sub)) :
    Except Exception (Target Sub) × Option (Cache Ty Val Sub) :=
  match cachedResult interp dispatcherCache args.positionals with
  | some sub => (.ok (.candidate sub), dispatcherCache)
  | none =>
    match obtainCache interp routines dispatchees dispatcherCache with
    | .error exception => (.error exception, dispatcherCache)
    | .ok cache =>
      let (result, cache) :=
        findBestCandidate interp bindCheck args routines cache.candidates cache
      (result, some cache)

end

section

/-- The tied groups of a candidate list, after those already seen of the
first one. -/
def groupsFrom : CandidateList Ty Val Sub → List (CandidateInfo Ty Val Sub) →
    List (List (CandidateInfo Ty Val Sub))
  | [], group => [group]
  | some info :: rest, group => groupsFrom rest (group ++ [info])
  | none :: rest, group =>
    match rest with
    | some _ :: _ => group :: groupsFrom rest []
    | _ => [group]

/-- The tied groups of a candidate list, narrowest first. -/
def tiedGroups (candidates : CandidateList Ty Val Sub) : List (List (CandidateInfo Ty Val Sub)) :=
  groupsFrom candidates []

variable {candidates : CandidateList Ty Val Sub} {info : CandidateInfo Ty Val Sub}
  {group : List (CandidateInfo Ty Val Sub)}

omit [DecidableEq Ty] in
theorem mem_of_mem_groupsFrom {seen : List (CandidateInfo Ty Val Sub)}
    (isGroup : group ∈ groupsFrom candidates seen) (mem : info ∈ group) :
    some info ∈ candidates ∨ info ∈ seen := by
  induction candidates generalizing seen with
  | nil =>
    rw [groupsFrom, mem_singleton] at isGroup
    exact .inr (isGroup ▸ mem)
  | cons entry rest ih =>
    cases entry with
    | some first =>
      rcases ih isGroup with inRest | mem
      · exact .inl (mem_cons_of_mem _ inRest)
      rcases mem_append.mp mem with mem | isFirst
      · exact .inr mem
      · exact .inl (by simp [mem_singleton.mp isFirst])
    | none =>
      simp only [groupsFrom] at isGroup
      split at isGroup
      · rcases mem_cons.mp isGroup with rfl | later
        · exact .inr mem
        rcases ih later with inRest | impossible
        · exact .inl (mem_cons_of_mem _ inRest)
        · cases impossible
      · exact .inr (mem_singleton.mp isGroup ▸ mem)

omit [DecidableEq Ty] in
theorem mem_of_mem_tiedGroups
    (isGroup : group ∈ tiedGroups candidates) (mem : info ∈ group) : some info ∈ candidates :=
  (mem_of_mem_groupsFrom isGroup mem).resolve_right (by simp)

variable (interp : Interp Ty Val) (bindCheck : BindCheck Ty Val Sub) (args : Args Val)

def searchGroups : List (List (CandidateInfo Ty Val Sub)) → Bool →
    Except Exception (List (CandidateInfo Ty Val Sub) × Bool)
  | [], pureTypeResult => .ok ([], pureTypeResult)
  | group :: rest, pureTypeResult => do
    let (kept, groupPure) ← settleGroup bindCheck args
      (group.filter fun info => admissible interp info args.positionals)
    if kept.isEmpty then
      searchGroups rest (pureTypeResult && groupPure)
    else
      .ok (kept, pureTypeResult && groupPure)

theorem collectPossibles_eq_searchGroups (candidates : CandidateList Ty Val Sub)
    (seen : List (CandidateInfo Ty Val Sub)) (pureTypeResult : Bool) :
    collectPossibles interp bindCheck args candidates
        (seen.filter fun info => admissible interp info args.positionals)
        pureTypeResult = searchGroups interp bindCheck args (groupsFrom candidates seen)
        pureTypeResult := by
  induction candidates generalizing seen pureTypeResult with
  | nil =>
    simp only [collectPossibles, groupsFrom, searchGroups]
    refine congrArg _ (funext fun (kept, groupPure) => ?_)
    cases kept <;> rfl
  | cons entry rest ih =>
    cases entry with
    | some info =>
      have continued := ih (seen ++ [info]) pureTypeResult
      cases admits : admissible interp info args.positionals with
      | true | false => simpa [collectPossibles, groupsFrom, admits] using continued
    | none =>
      simp only [collectPossibles, groupsFrom]
      cases rest with
      | nil =>
        simp only [searchGroups]
        refine congrArg _ (funext fun (kept, groupPure) => ?_)
        cases kept <;> rfl
      | cons next rest =>
        cases next with
        | none =>
          simp only [searchGroups]
          refine congrArg _ (funext fun (kept, groupPure) => ?_)
          cases kept <;> rfl
        | some info =>
          simp only [searchGroups]
          refine congrArg _ (funext fun (kept, groupPure) => ?_)
          cases kept with
          | nil =>
            simpa using ih [] (pureTypeResult && groupPure)
          | cons first kept => rfl

theorem collectPossibles_eq_tiedGroups (candidates : CandidateList Ty Val Sub) :
    collectPossibles interp bindCheck args candidates [] true =
      searchGroups interp bindCheck args (tiedGroups candidates) true :=
  collectPossibles_eq_searchGroups interp bindCheck args candidates [] true

end

variable {interp : Interp Ty Val}

section

variable {first second : List (BindVal Val)}

theorem argMatches_congr {first second : BindVal Val}
    (sameView : argView interp first = argView interp second)
    (slot : TypeSlot Ty Val) : argMatches interp slot first = argMatches interp slot second := by
  cases first <;> cases second <;>
    simp_all [argView, argMatches, argType, argDefined, BindVal.nativeKind]

theorem all_argMatches_congr {slots : List (TypeSlot Ty Val)}
    (sameViews : first.map (argView interp) = second.map (argView interp)) :
    ((slots.zip first).all fun (slot, value) => argMatches interp slot value) =
      (slots.zip second).all fun (slot, value) => argMatches interp slot value := by
  induction slots generalizing first second with
  | nil => simp
  | cons slot slots ih =>
    cases first with
    | nil =>
      cases second with
      | nil => rfl
      | cons value second => simp at sameViews
    | cons value first =>
      cases second with
      | nil => simp at sameViews
      | cons other second =>
        simp only [map_cons, List.cons.injEq] at sameViews
        simp only [zip_cons_cons, all_cons]
        rw [argMatches_congr sameViews.1, ih sameViews.2]

theorem admissible_congr {info : CandidateInfo Ty Val Sub}
    (sameViews : first.map (argView interp) = second.map (argView interp)) :
    admissible interp info first = admissible interp info second := by
  have sameLength : first.length = second.length := by
    simpa using congrArg length sameViews
  rw [admissible, admissible, sameLength, all_argMatches_congr sameViews]

end

section

variable {bindCheck otherCheck : BindCheck Ty Val Sub} {args otherArgs : Args Val}

omit [DecidableEq Ty] in
theorem settleGroup_pure {possibles kept : List (CandidateInfo Ty Val Sub)}
    (settled : settleGroup bindCheck args possibles = .ok (kept, true)) :
    kept = possibles ∧ ∀ info ∈ possibles, info.bindCheck = false := by
  induction possibles generalizing kept with
  | nil =>
    cases settled
    simp
  | cons info rest ih =>
    unfold settleGroup at settled
    split at settled
    · rcases of_bind settled with ⟨_, _, impossible⟩
      cases impossible
    split at settled
    · rcases of_bind settled with ⟨_, _, settled⟩
      rcases of_bind settled with ⟨_, _, impossible⟩
      cases impossible
    case isFalse unchecked =>
      rcases of_bind settled with ⟨⟨restKept, restPure⟩, settled, result⟩
      cases result
      rcases ih settled with ⟨rfl, restUnchecked⟩
      refine ⟨rfl, fun other mem => ?_⟩
      rcases mem_cons.mp mem with rfl | mem
      · simpa using unchecked
      · exact restUnchecked other mem

omit [DecidableEq Ty] in
theorem settleGroup_of_unchecked {possibles : List (CandidateInfo Ty Val Sub)}
    (namedChecked : ∀ info ∈ possibles, info.NamedChecked)
    (unchecked : ∀ info ∈ possibles, info.bindCheck = false) :
    settleGroup bindCheck args possibles = .ok (possibles, true) := by
  induction possibles with
  | nil => rfl
  | cons info rest ih =>
    have notRequired : info.reqNamed = none := by
      by_contra required
      have checked := namedChecked info (by simp) (Option.isSome_iff_ne_none.mpr required)
      rw [unchecked info (by simp)] at checked
      cases checked
    have settled := ih
      (forall_mem_cons.mp namedChecked).2
      (forall_mem_cons.mp unchecked).2
    simp [settleGroup, namedPassed, notRequired, unchecked info (by simp), settled]

theorem searchGroups_pure {groups : List (List (CandidateInfo Ty Val Sub))}
    {kept : List (CandidateInfo Ty Val Sub)} {pureSoFar : Bool}
    (namedChecked : ∀ group ∈ groups, ∀ info ∈ group, info.NamedChecked)
    (sameViews : args.positionals.map (argView interp) = otherArgs.positionals.map (argView interp))
    (searched : searchGroups interp bindCheck args groups pureSoFar = .ok (kept, true)) :
    pureSoFar = true ∧ searchGroups interp otherCheck otherArgs groups true = .ok (kept, true) := by
  induction groups generalizing pureSoFar with
  | nil =>
    simp only [searchGroups, Except.ok.injEq, Prod.mk.injEq] at searched ⊢
    simp [searched]
  | cons group rest ih =>
    have restChecked : ∀ group ∈ rest, ∀ info ∈ group, info.NamedChecked :=
      (forall_mem_cons.mp namedChecked).2
    rcases of_bind searched with ⟨⟨groupKept, groupPure⟩, settled, searched⟩
    dsimp only at searched
    have bothPure : (pureSoFar && groupPure) = true := by
      split at searched
      · exact (ih restChecked searched).1
      · simp only [Except.ok.injEq, Prod.mk.injEq] at searched
        exact searched.2
    rw [bothPure] at searched
    rw [Bool.and_eq_true] at bothPure
    rw [bothPure.2] at settled
    rcases settleGroup_pure settled with ⟨rfl, unchecked⟩
    have sameFilter : (group.filter fun info =>
          admissible interp info otherArgs.positionals) =
        group.filter fun info => admissible interp info args.positionals :=
      filter_congr fun info _ => (admissible_congr sameViews).symm
    have otherSettled := @settleGroup_of_unchecked _ _ _ otherCheck otherArgs _
      (fun info mem => namedChecked group (by simp) info (mem_filter.mp mem).1)
      unchecked
    refine ⟨bothPure.1, ?_⟩
    simp only [searchGroups, sameFilter, otherSettled, ok_bind, Bool.and_true]
    split at searched
    case isTrue empty =>
      rw [if_pos empty]
      exact (ih restChecked searched).2
    case isFalse nonempty =>
      rw [if_neg nonempty]
      exact searched

/-- A result that may be cached is found by every dispatch whose arguments
look the same. -/
theorem selectBest_pure {routines : Routines Ty Val Sub}
    {candidates : CandidateList Ty Val Sub} {target : Target Sub}
    (namedChecked : ∀ info, some info ∈ candidates → info.NamedChecked)
    (sameViews : args.positionals.map (argView interp) = otherArgs.positionals.map (argView interp))
    (selected : selectBest interp bindCheck args routines candidates = .ok (target, true)) :
    selectBest interp otherCheck otherArgs routines candidates = .ok (target, true) := by
  have sameLength : args.positionals.length = otherArgs.positionals.length := by
    simpa using congrArg length sameViews
  rcases of_bind selected with ⟨⟨possibles, pureTypeResult⟩, collected, selected⟩
  dsimp only at selected
  split at selected
  case h_1 info single =>
    simp only [Except.ok.injEq, Prod.mk.injEq, Bool.and_eq_true, decide_eq_true_eq] at selected
    rcases selected with ⟨rfl, rfl, small⟩
    rw [collectPossibles_eq_tiedGroups] at collected
    have searched : searchGroups interp otherCheck otherArgs (tiedGroups candidates)
        true = .ok (possibles, true) :=
      (searchGroups_pure (fun group isGroup info mem =>
        namedChecked info (mem_of_mem_tiedGroups isGroup mem)) sameViews collected).2
    rw [selectBest, collectPossibles_eq_tiedGroups, searched]
    simp [single, ← sameLength, small]
  case h_2 =>
    split at selected
    · cases selected
    · cases selected
  case h_3 => cases selected

end

section

variable (bindCheck : BindCheck Ty Val Sub) (args : Args Val)

omit [DecidableEq Ty]

/-- A candidate is not eliminated at the end of its tied group. -/
def survives (info : CandidateInfo Ty Val Sub) : Bool :=
  namedPassed args info && (!info.bindCheck ||
      match bindCheck info with
      | .ok bindable => bindable
      | .error _ => false)

/-- The bindability check of a candidate, if it is made, throws nothing. -/
def CheckReturns (info : CandidateInfo Ty Val Sub) : Prop :=
  namedPassed args info = true → info.bindCheck = true → ∃ bindable, bindCheck info = .ok bindable

variable {bindCheck args}

theorem settleGroup_ok_iff {possibles kept : List (CandidateInfo Ty Val Sub)} :
    (∃ pureTypeResult, settleGroup bindCheck args possibles = .ok (kept, pureTypeResult)) ↔
      (∀ info ∈ possibles, CheckReturns bindCheck args info) ∧
        kept = possibles.filter (survives bindCheck args) := by
  induction possibles generalizing kept with
  | nil => simp [settleGroup, eq_comm]
  | cons info rest ih =>
    rw [forall_mem_cons, filter_cons]
    cases passed : namedPassed args info with
    | false =>
      have returns : CheckReturns bindCheck args info := by
        simp [CheckReturns, passed]
      simp only [settleGroup, passed, Bool.not_false, if_true, survives,
        Bool.false_and, Bool.false_eq_true, if_false, returns, true_and, ← ih,
        bind_eq_ok_iff, Except.ok.injEq, Prod.mk.injEq]
      constructor
      · rintro ⟨_, ⟨restKept, restPure⟩, settled, rfl, _⟩
        exact ⟨restPure, settled⟩
      · rintro ⟨restPure, settled⟩
        exact ⟨false, _, settled, rfl, rfl⟩
    | true =>
      cases needed : info.bindCheck with
      | false =>
        have returns : CheckReturns bindCheck args info := by
          simp [CheckReturns, needed]
        simp only [settleGroup, passed, needed, Bool.not_true,
          Bool.false_eq_true, if_false, survives, Bool.not_false, Bool.true_or, Bool.and_true,
          if_true,
          returns, true_and, bind_eq_ok_iff, Except.ok.injEq, Prod.mk.injEq]
        constructor
        · rintro ⟨_, ⟨restKept, restPure⟩, settled, rfl, _⟩
          rcases ih.mp ⟨restPure, settled⟩ with ⟨others, rfl⟩
          exact ⟨others, rfl⟩
        rintro ⟨others, rfl⟩
        rcases ih.mpr ⟨others, rfl⟩ with ⟨restPure, settled⟩
        exact ⟨restPure, _, settled, rfl, rfl⟩
      | true =>
        cases outcome : bindCheck info with
        | error exception =>
          simp [settleGroup, needed, outcome, CheckReturns, passed]
        | ok bindable =>
          have returns : CheckReturns bindCheck args info := fun _ _ => ⟨bindable, outcome⟩
          simp only [settleGroup, passed, needed, Bool.not_true,
            Bool.false_eq_true, if_false, if_true, survives, outcome, Bool.false_or,
            Bool.true_and, returns, true_and, bind_eq_ok_iff,
            ok_bind, Except.ok.injEq, Prod.mk.injEq]
          constructor
          · rintro ⟨_, ⟨restKept, restPure⟩, settled, rfl, _⟩
            rcases ih.mp ⟨restPure, settled⟩ with ⟨others, rfl⟩
            exact ⟨others, rfl⟩
          rintro ⟨others, rfl⟩
          rcases ih.mpr ⟨others, rfl⟩ with ⟨restPure, settled⟩
          exact ⟨false, _, settled, rfl, rfl⟩

theorem applyDefault_eq_singleton_iff {routines : Routines Ty Val Sub}
    {before after : List (CandidateInfo Ty Val Sub)} {info : CandidateInfo Ty Val Sub}
    (distinct : ∀ rival ∈ before ++ after, rival.sub ≠ info.sub) :
    (∃ chosen, applyDefault routines (before ++ info :: after) = [chosen] ∧ chosen.sub = info.sub) ↔
      before ++ after = [] ∨ routines.isDefault info.sub = true ∧
        ∀ rival ∈ before ++ after, routines.isDefault rival.sub = false := by
  have membership : ∀ other, other ∈ before ++ info :: after ↔
      other = info ∨ other ∈ before ++ after := by
    intro other
    simp only [mem_append, mem_cons]
    tauto
  by_cases alone : before ++ after = []
  · rcases append_eq_nil_iff.mp alone with ⟨rfl, rfl⟩
    simp [applyDefault]
  have several : (before ++ info :: after).length > 1 := by
    have positive := length_pos_iff.mpr alone
    simp only [length_append, length_cons] at positive ⊢
    omega
  simp only [applyDefault, several, if_true, alone, false_or]
  constructor
  · rintro ⟨chosen, single, isSub⟩
    split at single
    case h_1 only =>
      cases single
      have inFilter : ∀ other, other ∈ before ++ info :: after →
          routines.isDefault other.sub = true → other = chosen := by
        intro other mem isDefault
        have mem := (@mem_filter _ (fun info => routines.isDefault info.sub) _ _).mpr
          ⟨mem, isDefault⟩
        rw [only] at mem
        exact mem_singleton.mp mem
      have mem : chosen ∈ (before ++ info :: after).filter fun info =>
          routines.isDefault info.sub := by simp [only]
      rcases mem_filter.mp mem with ⟨mem, isDefault⟩
      refine ⟨isSub ▸ isDefault, fun rival isRival => ?_⟩
      rw [← Bool.not_eq_true]
      intro alsoDefault
      have same := inFilter rival ((membership rival).mpr (.inr isRival)) alsoDefault
      exact distinct rival isRival (same ▸ isSub)
    case h_2 =>
      rw [single] at several
      simp at several
  · rintro ⟨isDefault, others⟩
    have only : ((before ++ info :: after).filter fun info =>
        routines.isDefault info.sub) = [info] := by
      have beforeNone : (before.filter fun info => routines.isDefault info.sub) = [] :=
        filter_eq_nil_iff.mpr fun rival mem => by
          simp [others rival (mem_append_left _ mem)]
      have afterNone : (after.filter fun info => routines.isDefault info.sub) = [] :=
        filter_eq_nil_iff.mpr fun rival mem => by
          simp [others rival (mem_append_right _ mem)]
      rw [filter_append, filter_cons, beforeNone, afterNone, isDefault]
      rfl
    exact ⟨info, by rw [only], rfl⟩

end

section

variable {bindCheck : BindCheck Ty Val Sub} {args : Args Val}

theorem searchGroups_skip {earlier : List (List (CandidateInfo Ty Val Sub))}
    (inadmissible : ∀ group ∈ earlier, ∀ info ∈ group,
      admissible interp info args.positionals = false)
    (groups : List (List (CandidateInfo Ty Val Sub))) (pureTypeResult : Bool) :
    searchGroups interp bindCheck args (earlier ++ groups) pureTypeResult =
      searchGroups interp bindCheck args groups pureTypeResult := by
  induction earlier with
  | nil => rfl
  | cons group earlier ih =>
    have none : (group.filter fun info => admissible interp info args.positionals) = [] :=
      filter_eq_nil_iff.mpr fun info mem => by
        simp [inadmissible group (by simp) info mem]
    simp only [cons_append, searchGroups, none, settleGroup, ok_bind,
      isEmpty_nil, if_true, Bool.and_true]
    exact ih (forall_mem_cons.mp inadmissible).2

end

section

variable (interp : Interp Ty Val) (routines : Routines Ty Val Sub)

/-- A dispatch, or an operation that only makes sure of the candidate list. -/
inductive DispatcherStep (dispatchees : List Sub) :
    Option (Cache Ty Val Sub) → Option (Cache Ty Val Sub) → Prop
  | dispatch (state : Option (Cache Ty Val Sub)) (bindCheck : BindCheck Ty Val Sub)
      (args : Args Val) : DispatcherStep dispatchees state
        (mdDispatch interp bindCheck args routines dispatchees state).2
  | obtain {state cache}
      (obtained : obtainCache interp routines dispatchees state = .ok cache) :
      DispatcherStep dispatchees state (some cache)

/-- The states of a dispatcher that was fresh once. -/
def Reachable (dispatchees : List Sub) : Option (Cache Ty Val Sub) → Prop :=
  Relation.ReflTransGen (DispatcherStep interp routines dispatchees) none

/-- Every dispatch with this tuple selects this code object. -/
def AlwaysSelects (candidates : CandidateList Ty Val Sub) (tuple : List Nat) (sub : Sub) : Prop :=
  ∀ (bindCheck : BindCheck Ty Val Sub) (args : Args Val),
    argTup interp args.positionals = tuple →
      ∃ cacheable, selectBest interp bindCheck args routines candidates =
        .ok (.candidate sub, cacheable)

/-- The candidate list is sorted, and each entry is what a dispatch selects. -/
structure CacheInvariant (dispatchees : List Sub) (cache : Cache Ty Val Sub) : Prop where
  candidates : sortCandidates interp routines dispatchees = .ok cache.candidates
  arityCaches : ∀ arity, ∃ entries,
    (cache.arityCaches arity).Represents (arity + 1) entries ∧
      ∀ entry ∈ entries, AlwaysSelects interp routines cache.candidates entry.1 entry.2
  zeroArity : ∀ sub, cache.zeroArity = some sub →
    AlwaysSelects interp routines cache.candidates [] sub

variable {interp routines} {dispatchees : List Sub} {cache : Cache Ty Val Sub}
  {state : Option (Cache Ty Val Sub)} {positionals : List (BindVal Val)} {sub : Sub}

theorem CacheInvariant.namedChecked (invariant : CacheInvariant interp routines dispatchees cache)
    {info : CandidateInfo Ty Val Sub} (mem : some info ∈ cache.candidates) : info.NamedChecked := by
  rcases mem_sortCandidates invariant.candidates mem with ⟨sub, _, rfl⟩
  exact candidateInfo_namedChecked interp routines sub

theorem cacheInvariant_empty {candidates : CandidateList Ty Val Sub}
    (sorts : sortCandidates interp routines dispatchees = .ok candidates) :
    CacheInvariant interp routines dispatchees (Cache.empty candidates) where
  candidates := sorts
  arityCaches arity := ⟨[], ArityCache.represents_nil _, by simp⟩
  zeroArity sub impossible := by cases impossible

theorem CacheInvariant.addToCache (invariant : CacheInvariant interp routines dispatchees cache)
    (selects : AlwaysSelects interp routines cache.candidates (argTup interp positionals) sub) :
    CacheInvariant interp routines dispatchees (addToCache interp cache positionals sub) := by
  unfold Multi.addToCache
  split
  case isTrue empty =>
    rw [List.isEmpty_iff] at empty
    subst empty
    exact
      { candidates := invariant.candidates
        arityCaches := invariant.arityCaches
        zeroArity := fun stored isStored => by
          cases isStored
          exact selects }
  case isFalse nonempty =>
    dsimp only
    split
    · exact invariant
    refine ⟨invariant.candidates, fun arity => ?_, invariant.zeroArity⟩
    dsimp only
    by_cases isArity : arity = positionals.length - 1
    · subst isArity
      rcases invariant.arityCaches (positionals.length - 1) with
        ⟨entries, represents, entriesSelect⟩
      have width : positionals.length - 1 + 1 = (argTup interp positionals).length := by
        have positive : positionals.length ≠ 0 := by
          simpa [List.isEmpty_iff] using nonempty
        simp only [argTup, length_map]
        omega
      rw [Function.update_self, width]
      rw [width] at represents
      refine ⟨_, represents.add sub, fun entry mem => ?_⟩
      rcases mem_append.mp mem with present | new
      · exact entriesSelect entry present
      · rw [mem_singleton.mp new]
        exact selects
    · rw [Function.update_of_ne isArity]
      exact invariant.arityCaches arity

theorem CacheInvariant.alwaysSelects (invariant : CacheInvariant interp routines dispatchees cache)
    (hit : findInCache interp cache positionals = some sub) :
    AlwaysSelects interp routines cache.candidates (argTup interp positionals) sub := by
  unfold findInCache at hit
  split at hit
  case isTrue empty =>
    rw [List.isEmpty_iff] at empty
    subst empty
    exact invariant.zeroArity sub hit
  case isFalse nonempty =>
    rcases invariant.arityCaches (positionals.length - 1) with ⟨entries, represents, entriesSelect⟩
    have width : positionals.length - 1 + 1 = (argTup interp positionals).length := by
      have positive : positionals.length ≠ 0 := by
        simpa [List.isEmpty_iff] using nonempty
      simp only [argTup, length_map]
      omega
    rw [width] at represents
    have found := @lookThrough_eq_find? _ _ (argTup interp positionals) [] _ represents
    dsimp only at hit
    rw [represents.numEntries] at hit
    rw [length_nil, Nat.zero_mul, hit] at found
    rcases Option.map_eq_some_iff.mp found.symm with ⟨entry, isFound, rfl⟩
    have tuple := find?_some isFound
    rw [decide_eq_true_eq] at tuple
    rw [← tuple]
    exact entriesSelect entry (mem_of_find?_eq_some isFound)

theorem CacheInvariant.findBestCandidate (ids : interp.CacheIds)
    (invariant : CacheInvariant interp routines dispatchees cache)
    (bindCheck : BindCheck Ty Val Sub) (args : Args Val) :
    CacheInvariant interp routines dispatchees
      (findBestCandidate interp bindCheck args routines cache.candidates cache).2 := by
  unfold Multi.findBestCandidate
  split
  case h_1 => exact invariant
  case h_2 sub selected =>
    refine invariant.addToCache fun otherCheck otherArgs sameTuple => ⟨true, ?_⟩
    exact selectBest_pure (fun info mem => invariant.namedChecked mem)
      (map_argView_of_argTup ids sameTuple.symm) selected
  case h_3 => exact invariant

/-- Every cache a dispatcher can get to satisfies the invariant. -/
theorem cacheInvariant_of_reachable (ids : interp.CacheIds)
    (reachable : Reachable interp routines dispatchees state) :
    ∀ cache, state = some cache → CacheInvariant interp routines dispatchees cache := by
  have obtains : ∀ {state : Option (Cache Ty Val Sub)} {cache : Cache Ty Val Sub},
      (∀ cache, state = some cache → CacheInvariant interp routines dispatchees cache) →
        obtainCache interp routines dispatchees state = .ok cache →
          CacheInvariant interp routines dispatchees cache := by
    intro state cache invariant obtained
    cases state with
    | some present =>
      cases obtained
      exact invariant _ rfl
    | none =>
      rcases map_eq_ok_iff.mp obtained with ⟨candidates, sorts, rfl⟩
      exact cacheInvariant_empty sorts
  induction reachable with
  | refl =>
    intro cache impossible
    cases impossible
  | tail _ step ih =>
    cases step with
    | obtain obtained =>
      rintro _ ⟨⟩
      exact obtains ih obtained
    | dispatch bindCheck args =>
      unfold mdDispatch
      split
      · exact ih
      split
      · exact ih
      case h_2 cache obtained =>
        rintro _ ⟨⟩
        exact (obtains ih obtained).findBestCandidate ids bindCheck args

/-- The multi-dispatch cache is transparent: whatever dispatches came before,
a hit is the candidate that a full dispatch selects, whatever its bindability
checks and named arguments. -/
theorem findInCache_eq_findBestCandidate (ids : interp.CacheIds)
    (reachable : Reachable interp routines dispatchees (some cache)) (args : Args Val) {sub : Sub}
    (hit : findInCache interp cache args.positionals = some sub)
    (bindCheck : BindCheck Ty Val Sub) :
    (findBestCandidate interp bindCheck args routines cache.candidates
      (Cache.empty cache.candidates)).1 = .ok (.candidate sub) := by
  have invariant := cacheInvariant_of_reachable ids reachable cache rfl
  rcases invariant.alwaysSelects hit bindCheck args rfl with ⟨cacheable, selected⟩
  unfold findBestCandidate
  rw [selected]
  cases cacheable <;> rfl

omit [DecidableEq Ty] in
/-- The cache has no influence on what a full dispatch returns. -/
theorem findBestCandidate_fst [DecidableEq Ty] (bindCheck : BindCheck Ty Val Sub)
    (args : Args Val) (candidates : CandidateList Ty Val Sub) :
    (findBestCandidate interp bindCheck args routines candidates cache).1 =
      (selectBest interp bindCheck args routines candidates).map Prod.fst := by
  unfold findBestCandidate
  split <;> simp_all [Except.map]

theorem mdDispatch_eq_fresh (ids : interp.CacheIds)
    (reachable : Reachable interp routines dispatchees state)
    (bindCheck : BindCheck Ty Val Sub) (args : Args Val) :
    (mdDispatch interp bindCheck args routines dispatchees state).1 =
      (mdDispatch interp bindCheck args routines dispatchees none).1 := by
  cases state with
  | none => rfl
  | some cache =>
    have invariant := cacheInvariant_of_reachable ids reachable cache rfl
    have fresh : (mdDispatch interp bindCheck args routines dispatchees none).1 =
        (selectBest interp bindCheck args routines cache.candidates).map Prod.fst := by
      simp only [mdDispatch, cachedResult, obtainCache, invariant.candidates,
        Except.map, findBestCandidate_fst, Cache.empty]
    rw [fresh]
    unfold mdDispatch
    split
    case h_1 sub hit =>
      simp only [cachedResult] at hit
      split at hit
      · rcases invariant.alwaysSelects hit bindCheck args rfl with ⟨cacheable, selected⟩
        rw [selected]
        rfl
      · cases hit
    case h_2 => simp only [obtainCache, findBestCandidate_fst]

end

/-- Code objects that are no more than their signature. -/
def Diamond.routines : Routines Diamond.Ty Diamond.Val
    (List (Parameter Diamond.Ty Diamond.Val)) where
  signature := id
  name _ := "f"
  signaturePerl _ := "($x)"
  isDefault _ := false

/-- The signature of a multi that dispatches on one parameter for each type. -/
def Diamond.multi (types : List Diamond.Ty) : List (Parameter Diamond.Ty Diamond.Val) :=
  types.map fun type => .mk (Diamond.param type [.multiInvocant]) none

/-- The sorted candidates of `multi f(Alpha $x)`. -/
def Diamond.alphaCandidates :
    CandidateList Diamond.Ty Diamond.Val (List (Parameter Diamond.Ty Diamond.Val)) :=
  [some (candidateInfo Diamond.interp Diamond.routines (Diamond.multi [.alpha])), none, none, none]

theorem Diamond.mdDispatch_alpha :
    (mdDispatch Diamond.interp (fun _ => .ok true) ⟨[.obj ⟨.alpha, true⟩], none⟩
      Diamond.routines [Diamond.multi [.alpha]] none).2 =
      some (addToCache Diamond.interp (Cache.empty Diamond.alphaCandidates)
        [.obj ⟨.alpha, true⟩] (Diamond.multi [.alpha])) :=
  rfl

/-- `multi f(Alpha $x)` called twice with an `Alpha`. -/
theorem findInCache_eq_findBestCandidate_alpha :
    (findBestCandidate Diamond.interp (fun _ => .ok true)
      ⟨[.obj ⟨.alpha, true⟩], none⟩ Diamond.routines Diamond.alphaCandidates
      (Cache.empty Diamond.alphaCandidates)).1 = .ok (.candidate (Diamond.multi [.alpha])) := by
  have step := @DispatcherStep.dispatch _ _ _ _ Diamond.interp Diamond.routines
    [Diamond.multi [.alpha]] none (fun _ => .ok true) ⟨[.obj ⟨.alpha, true⟩], none⟩
  rw [Diamond.mdDispatch_alpha] at step
  exact findInCache_eq_findBestCandidate Diamond.cacheIds (.single step)
    ⟨[.obj ⟨.alpha, true⟩], none⟩ rfl (fun _ => .ok true)

end RakudoStar.Multi
