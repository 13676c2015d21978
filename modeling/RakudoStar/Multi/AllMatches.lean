import RakudoStar.Multi.Stratified

/-!
# All matching candidates

`Rakudo_md_get_all_matches` runs the search to the end: at each null pointer it keeps the
candidates that are left and goes on.
-/

namespace RakudoStar.Multi

open Binder List RakudoStar.Except

variable {Ty Val Sub : Type} [DecidableEq Ty]

section

variable (interp : Interp Ty Val) (bindCheck : BindCheck Ty Val Sub) (args : Args Val)

/-- The loop of `find_best_candidate` when many candidates are wanted. -/
def collectAll : CandidateList Ty Val Sub → List (CandidateInfo Ty Val Sub) → List Sub →
    Except Exception (List Sub)
  | [], possibles, manyRes => do
    let (kept, _) ← settleGroup bindCheck args possibles
    .ok (manyRes ++ kept.map CandidateInfo.sub)
  | none :: rest, possibles, manyRes => do
    let (kept, _) ← settleGroup bindCheck args possibles
    let manyRes := manyRes ++ kept.map CandidateInfo.sub
    match rest with
    | some _ :: _ => collectAll rest [] manyRes
    | _ => .ok manyRes
  | some info :: rest, possibles, manyRes =>
    if admissible interp info args.positionals then
      collectAll rest (possibles ++ [info]) manyRes
    else
      collectAll rest possibles manyRes

/-- `Rakudo_md_get_all_matches`, with the new contents of the dispatcher cache. -/
def getAllMatches (routines : Routines Ty Val Sub) (dispatchees : List Sub)
    (dispatcherCache : Option (Cache Ty Val Sub)) :
    Except Exception (List Sub) × Option (Cache Ty Val Sub) :=
  match obtainCache interp routines dispatchees dispatcherCache with
  | .error exception => (.error exception, dispatcherCache)
  | .ok cache => (collectAll interp bindCheck args cache.candidates [] [], some cache)

/-- Admissible by arity, type and definedness, and not eliminated later. -/
def isMatch (info : CandidateInfo Ty Val Sub) : Bool :=
  admissible interp info args.positionals && survives bindCheck args info

/-- Settle the tied groups in turn. -/
def settleAll : List (List (CandidateInfo Ty Val Sub)) →
    Except Exception (List (CandidateInfo Ty Val Sub))
  | [] => .ok []
  | group :: rest => do
    let (kept, _) ← settleGroup bindCheck args
      (group.filter fun info => admissible interp info args.positionals)
    let keptLater ← settleAll rest
    .ok (kept ++ keptLater)

theorem settleAll_singleton (group : List (CandidateInfo Ty Val Sub)) (manyRes : List Sub) :
    (settleGroup bindCheck args
        (group.filter fun info => admissible interp info args.positionals) >>=
      fun (kept, _) => .ok (manyRes ++ kept.map CandidateInfo.sub)) =
      (settleAll interp bindCheck args [group]).map fun kept =>
        manyRes ++ kept.map CandidateInfo.sub := by
  simp only [settleAll]
  cases settleGroup bindCheck args
    (group.filter fun info => admissible interp info args.positionals) with
  | error exception => rfl
  | ok settled => simp [Except.map]

theorem collectAll_eq_settleAll (candidates : CandidateList Ty Val Sub)
    (seen : List (CandidateInfo Ty Val Sub)) (manyRes : List Sub) :
    collectAll interp bindCheck args candidates
        (seen.filter fun info => admissible interp info args.positionals) manyRes =
      (settleAll interp bindCheck args (groupsFrom candidates seen)).map fun kept =>
        manyRes ++ kept.map CandidateInfo.sub := by
  induction candidates generalizing seen manyRes with
  | nil => exact settleAll_singleton interp bindCheck args seen manyRes
  | cons entry rest ih =>
    cases entry with
    | some info =>
      have continued := ih (seen ++ [info]) manyRes
      cases admits : admissible interp info args.positionals with
      | true | false => simpa [collectAll, groupsFrom, admits] using continued
    | none =>
      rcases rest with _ | ⟨_ | info, rest⟩
      · exact settleAll_singleton interp bindCheck args seen manyRes
      · exact settleAll_singleton interp bindCheck args seen manyRes
      -- The next entry is a candidate, so the loop goes on.
      have continued := fun kept => ih [] (manyRes ++ kept)
      rw [filter_nil] at continued
      simp only [collectAll, groupsFrom, settleAll] at continued ⊢
      cases settleGroup bindCheck args
        (seen.filter fun info => admissible interp info args.positionals) with
      | error exception => rfl
      | ok settled =>
        rcases settled with ⟨kept, groupPure⟩
        simp only [ok_bind, continued]
        cases settleAll interp bindCheck args (groupsFrom rest ([] ++ [info])) with
        | error exception => rfl
        | ok keptLater => simp [Except.map]

end

variable {interp : Interp Ty Val} {groups : List (List (CandidateInfo Ty Val Sub))}

section

variable {bindCheck : BindCheck Ty Val Sub} {args : Args Val}

variable (interp bindCheck args) in
/-- The bindability checks that the search of a group makes throw nothing. -/
def ChecksReturn (group : List (CandidateInfo Ty Val Sub)) : Prop :=
  ∀ info ∈ group, admissible interp info args.positionals = true → CheckReturns bindCheck args info

theorem settleGroup_admissible_iff {group kept : List (CandidateInfo Ty Val Sub)} :
    (∃ pureTypeResult, settleGroup bindCheck args
        (group.filter fun info => admissible interp info args.positionals) =
          .ok (kept, pureTypeResult)) ↔ ChecksReturn interp bindCheck args group ∧
        kept = group.filter (isMatch interp bindCheck args) := by
  rw [settleGroup_ok_iff, filter_filter]
  unfold ChecksReturn isMatch
  simp only [mem_filter, and_imp, Bool.and_comm]

theorem settleAll_ok_iff {kept : List (CandidateInfo Ty Val Sub)} :
    settleAll interp bindCheck args groups = .ok kept ↔
      (∀ group ∈ groups, ChecksReturn interp bindCheck args group) ∧
        kept = groups.flatten.filter (isMatch interp bindCheck args) := by
  induction groups generalizing kept with
  | nil =>
    simp only [settleAll, Except.ok.injEq]
    simp [eq_comm]
  | cons group groups ih =>
    rw [settleAll, flatten_cons, filter_append, forall_mem_cons]
    constructor
    · intro settled
      rcases of_bind settled with ⟨⟨first, groupPure⟩, here, settled⟩
      rcases of_bind settled with ⟨later, there, settled⟩
      cases settled
      rcases settleGroup_admissible_iff.mp ⟨groupPure, here⟩ with ⟨returns, rfl⟩
      rcases ih.mp there with ⟨laterReturn, rfl⟩
      exact ⟨⟨returns, laterReturn⟩, rfl⟩
    rintro ⟨⟨returns, laterReturn⟩, rfl⟩
    rcases settleGroup_admissible_iff.mpr ⟨returns, rfl⟩ with ⟨groupPure, here⟩
    rw [here, ok_bind, ih.mpr ⟨laterReturn, rfl⟩]
    rfl

/-- The first group of which some candidate matches, with those that do. -/
def firstMatching (test : CandidateInfo Ty Val Sub → Bool)
    (groups : List (List (CandidateInfo Ty Val Sub))) : List (CandidateInfo Ty Val Sub) :=
  ((groups.map (List.filter test)).find? fun group => !group.isEmpty).getD []

section
omit [DecidableEq Ty]

section
variable (test : CandidateInfo Ty Val Sub → Bool)
include test

theorem firstMatching_cons (group : List (CandidateInfo Ty Val Sub)) :
    firstMatching test (group :: groups) =
      if (group.filter test).isEmpty then firstMatching test groups else group.filter test := by
  unfold firstMatching
  rw [map_cons, find?_cons]
  cases (group.filter test).isEmpty <;> rfl

theorem firstMatching_eq_nil_iff :
    firstMatching test groups = [] ↔ groups.flatten.filter test = [] := by
  induction groups with
  | nil => simp [firstMatching]
  | cons group groups ih =>
    rw [firstMatching_cons, flatten_cons, filter_append, append_eq_nil_iff]
    cases here : group.filter test with
    | nil => simp [ih]
    | cons info rest => simp

theorem firstMatching_head {info : CandidateInfo Ty Val Sub}
    (single : firstMatching test groups = [info]) :
    (groups.flatten.filter test).head? = some info := by
  induction groups with
  | nil => simp [firstMatching] at single
  | cons group groups ih =>
    rw [firstMatching_cons] at single
    rw [flatten_cons, filter_append]
    cases here : group.filter test with
    | nil =>
      rw [here] at single
      exact ih single
    | cons first rest =>
      rw [here] at single
      cases single
      rfl

end

end

theorem searchGroups_of_checksReturn
    (returns : ∀ group ∈ groups, ChecksReturn interp bindCheck args group)
    (pureSoFar : Bool) : ∃ pureTypeResult, searchGroups interp bindCheck args groups pureSoFar =
      .ok (firstMatching (isMatch interp bindCheck args) groups, pureTypeResult) := by
  induction groups generalizing pureSoFar with
  | nil => exact ⟨pureSoFar, rfl⟩
  | cons group groups ih =>
    rcases settleGroup_admissible_iff.mpr ⟨returns group (by simp), rfl⟩ with ⟨groupPure, settled⟩
    rw [firstMatching_cons, searchGroups, settled, ok_bind]
    dsimp only
    split
    · exact ih (fun other later => returns other (by simp [later])) _
    · exact ⟨_, rfl⟩

theorem settleAll_of_searchGroups_nil {pureSoFar pureTypeResult : Bool}
    (searched : searchGroups interp bindCheck args groups pureSoFar = .ok ([], pureTypeResult)) :
    settleAll interp bindCheck args groups = .ok [] := by
  induction groups generalizing pureSoFar with
  | nil => rfl
  | cons group groups ih =>
    rcases of_bind searched with ⟨⟨kept, groupPure⟩, settled, searched⟩
    dsimp only at searched
    split at searched
    case isTrue empty =>
      rw [settleAll, settled, ok_bind, ih searched]
      simpa using empty
    case isFalse nonempty =>
      cases searched
      simp at nonempty

def CheckThrows (interp : Interp Ty Val) (bindCheck : BindCheck Ty Val Sub) (args : Args Val)
    (exception : Exception) (info : CandidateInfo Ty Val Sub) : Prop :=
  admissible interp info args.positionals = true ∧ namedPassed args info = true ∧
    info.bindCheck = true ∧ bindCheck info = .error exception

variable {exception : Exception}

omit [DecidableEq Ty] in
theorem settleGroup_error {possibles : List (CandidateInfo Ty Val Sub)}
    (throws : settleGroup bindCheck args possibles = .error exception) :
    ∃ info ∈ possibles, namedPassed args info = true ∧ info.bindCheck = true ∧
      bindCheck info = .error exception := by
  induction possibles with
  | nil => cases throws
  | cons info rest ih =>
    -- Nothing is thrown after the rest of the group has been settled.
    have later : ∀ keep : List (CandidateInfo Ty Val Sub) × Bool →
          List (CandidateInfo Ty Val Sub) × Bool,
        (settleGroup bindCheck args rest >>= fun settled => .ok (keep settled)) = .error exception →
        ∃ other ∈ info :: rest, namedPassed args other = true ∧ other.bindCheck = true ∧
          bindCheck other = .error exception := by
      intro keep restThrows
      cases restResult : settleGroup bindCheck args rest with
      | ok settled =>
        rw [restResult] at restThrows
        cases restThrows
      | error other =>
        rw [restResult] at restThrows
        cases restThrows
        rcases ih restResult with ⟨other, member, found⟩
        exact ⟨other, mem_cons_of_mem _ member, found⟩
    unfold settleGroup at throws
    split at throws
    · exact later _ throws
    case isFalse passed =>
      split at throws
      case isTrue checked =>
        cases result : bindCheck info with
        | error other =>
          rw [result] at throws
          cases throws
          exact ⟨info, by simp, by simpa using passed, checked, result⟩
        | ok bindable =>
          rw [result, ok_bind] at throws
          exact later _ throws
      case isFalse => exact later _ throws

theorem settleAll_of_searchGroups_error {pureSoFar : Bool}
    (throws : searchGroups interp bindCheck args groups pureSoFar = .error exception) :
    settleAll interp bindCheck args groups = .error exception := by
  induction groups generalizing pureSoFar with
  | nil => cases throws
  | cons group groups ih =>
    rw [searchGroups] at throws
    rw [settleAll]
    cases settled : settleGroup bindCheck args
        (group.filter fun info => admissible interp info args.positionals) with
    | error other =>
      rw [settled] at throws
      cases throws
      rfl
    | ok kept =>
      rw [settled, ok_bind] at throws
      dsimp only at throws
      split at throws
      · rw [ok_bind, ih throws]
        rfl
      · cases throws

theorem settleAll_error (throws : settleAll interp bindCheck args groups = .error exception) :
    ∃ info ∈ groups.flatten, CheckThrows interp bindCheck args exception info := by
  induction groups with
  | nil => cases throws
  | cons group groups ih =>
    rw [settleAll] at throws
    cases settled : settleGroup bindCheck args
        (group.filter fun info => admissible interp info args.positionals) with
    | error other =>
      rw [settled] at throws
      cases throws
      rcases settleGroup_error settled with ⟨info, member, named, checked, result⟩
      rcases mem_filter.mp member with ⟨inGroup, admits⟩
      exact ⟨info, by simp [inGroup], admits, named, checked, result⟩
    | ok kept =>
      rw [settled, ok_bind] at throws
      cases later : settleAll interp bindCheck args groups with
      | error other =>
        rw [later] at throws
        cases throws
        rcases ih later with ⟨info, member, found⟩
        refine ⟨info, ?_, found⟩
        rw [flatten_cons]
        exact mem_append_right _ member
      | ok keptLater =>
        rw [later] at throws
        cases throws

end

section

variable {infos : List (CandidateInfo Ty Val Sub)}

omit [DecidableEq Ty] in
theorem groupsFrom_append (group seen : List (CandidateInfo Ty Val Sub))
    (rest : CandidateList Ty Val Sub) :
    groupsFrom (group.map some ++ rest) seen = groupsFrom rest (seen ++ group) := by
  induction group generalizing seen with
  | nil => simp
  | cons info group ih =>
    rw [map_cons, cons_append, groupsFrom, ih, append_assoc]
    rfl

omit [DecidableEq Ty] in
theorem tiedGroups_separated (nonempty : ∀ group ∈ groups, group ≠ []) {nulls : Nat}
    (ends : 0 < nulls) : tiedGroups (separated groups ++ replicate nulls none) =
      if groups = [] then [[]] else groups := by
  rcases Nat.exists_eq_succ_of_ne_zero ends.ne' with ⟨more, rfl⟩
  unfold tiedGroups
  cases groups with
  | nil =>
    cases more <;> simp [separated, replicate_succ, groupsFrom]
  | cons group groups =>
    rw [if_neg (by simp)]
    induction groups generalizing group with
    | nil =>
      simp only [separated, flatMap_cons, flatMap_nil, append_nil, append_assoc, groupsFrom_append]
      simp [replicate_succ, groupsFrom]
    | cons next groups ih =>
      have rest := ih next fun other later => nonempty other (by
        simp only [mem_cons] at later ⊢
        exact .inr later)
      rcases exists_cons_of_ne_nil (nonempty next (by simp)) with ⟨info, infos, rfl⟩
      unfold separated at rest ⊢
      rw [flatMap_cons, append_assoc, append_assoc, groupsFrom_append, nil_append]
      simp only [flatMap_cons, map_cons, cons_append, nil_append, append_assoc] at rest ⊢
      rw [groupsFrom, rest]

theorem Stratified.matches_pairwise (stratified : Stratified interp infos groups)
    (test : CandidateInfo Ty Val Sub → Bool) :
    (groups.flatten.filter test).Pairwise fun a b => isNarrower interp b a = false := by
  apply List.Pairwise.filter
  apply pairwise_flatten.mpr
  constructor
  · intro group isGroup
    apply pairwise_of_forall_mem_list
    intro a aMember b bMember
    exact stratified.tied group isGroup b bMember a aMember
  apply pairwise_iff_getElem.mpr
  intro i j iBound jBound before a aMember b bMember
  rw [Bool.eq_false_iff]
  intro narrower
  have := stratified.earlier j i _ _ (getElem?_eq_getElem jBound)
    (getElem?_eq_getElem iBound) b bMember a aMember narrower
  exact absurd this (lt_asymm before)

end

section

variable {routines : Routines Ty Val Sub} {dispatchees : List Sub}
  {state : Option (Cache Ty Val Sub)} {bindCheck : BindCheck Ty Val Sub} {args : Args Val}

omit [DecidableEq Ty] in
def noneMatch (routines : Routines Ty Val Sub) (candidates : CandidateList Ty Val Sub) :
    Exception :=
  ⟨s!"Cannot call '{firstName routines candidates}'; " ++
    s!"none of these signatures match:\n{dumpSignatures routines candidates.reduceOption}"⟩

variable (interp bindCheck args routines dispatchees) in
/-- A dispatch hands over to the junction threader, or reports that nothing matches. -/
def FindsNone (result : Except Exception (Target Sub)) : Prop :=
  ∃ sorted, sortCandidates interp routines dispatchees = .ok sorted ∧
    (result = .ok .junctionThreader ∨ (result = .error (noneMatch routines sorted) ∧
        ∀ info, some info ∈ sorted →
          ¬CheckThrows interp bindCheck args (noneMatch routines sorted) info))

omit [DecidableEq Ty] in
theorem applyDefault_eq_nil_iff {possibles : List (CandidateInfo Ty Val Sub)} :
    applyDefault routines possibles = [] ↔ possibles = [] := by
  unfold applyDefault
  split
  case isTrue several =>
    split
    · simp only [reduceCtorEq, false_iff]
      rintro rfl
      simp at several
    · rfl
  case isFalse => rfl

omit [DecidableEq Ty] in
omit [DecidableEq Ty] in
theorem noneMatch_ne_ambiguous (candidates : CandidateList Ty Val Sub) (name signatures : String) :
    noneMatch routines candidates ≠
      ⟨s!"Ambiguous call to '{name}'; " ++ s!"these signatures all match:\n{signatures}"⟩ := by
  intro same
  have first := congrArg (fun exception => exception.message.toList.head?) same
  have cannot : (toString "Cannot call '").toList.head? = some 'C' := rfl
  have ambiguous : (toString "Ambiguous call to '").toList.head? = some 'A' := rfl
  simp [noneMatch, String.toList_append, cannot, ambiguous] at first

theorem mdDispatch_fresh : (mdDispatch interp bindCheck args routines dispatchees none).1 =
      match sortCandidates interp routines dispatchees with
      | .error exception => .error exception
      | .ok sorted => (selectBest interp bindCheck args routines sorted).map Prod.fst := by
  unfold mdDispatch cachedResult obtainCache
  cases sortCandidates interp routines dispatchees with
  | error exception => rfl
  | ok sorted => exact findBestCandidate_fst bindCheck args sorted

theorem getAllMatches_reachable (ids : interp.CacheIds)
    (reachable : Reachable interp routines dispatchees state) :
    (getAllMatches interp bindCheck args routines dispatchees state).1 =
      match sortCandidates interp routines dispatchees with
      | .error exception => .error exception
      | .ok sorted => (settleAll interp bindCheck args (tiedGroups sorted)).map fun kept =>
        kept.map CandidateInfo.sub := by
  have collected := fun sorted : CandidateList Ty Val Sub =>
    collectAll_eq_settleAll interp bindCheck args sorted [] []
  simp only [filter_nil, nil_append] at collected
  unfold getAllMatches obtainCache
  cases state with
  | none =>
    cases sortCandidates interp routines dispatchees with
    | error exception => rfl
    | ok sorted => exact collected sorted
  | some cache =>
    have invariant := cacheInvariant_of_reachable ids reachable cache rfl
    rw [invariant.candidates]
    exact collected cache.candidates

variable {sorted : CandidateList Ty Val Sub}

theorem selectBest_of_collected
    {possibles : List (CandidateInfo Ty Val Sub)} {pureTypeResult : Bool}
    (collected : searchGroups interp bindCheck args (tiedGroups sorted) true =
      .ok (possibles, pureTypeResult)) :
    (possibles = [] → ((selectBest interp bindCheck args routines sorted).map Prod.fst =
          .ok .junctionThreader ∨ (selectBest interp bindCheck args routines sorted).map Prod.fst =
          .error (noneMatch routines sorted))) ∧ (∀ info, possibles = [info] →
        (selectBest interp bindCheck args routines sorted).map Prod.fst =
          .ok (.candidate info.sub)) ∧
      (((selectBest interp bindCheck args routines sorted).map Prod.fst = .ok .junctionThreader ∨
          (selectBest interp bindCheck args routines sorted).map Prod.fst =
            .error (noneMatch routines sorted)) → possibles = []) := by
  unfold selectBest
  rw [collectPossibles_eq_tiedGroups, collected, ok_bind]
  dsimp only
  refine ⟨?_, ?_, ?_⟩
  · rintro rfl
    change ((if hasJunctionalArgs interp args.positionals = true then _ else _ :
      Except Exception (Target Sub × Bool)).map Prod.fst = _) ∨ _
    split
    · exact .inl rfl
    · exact .inr rfl
  · rintro info rfl
    rfl
  intro ended
  rw [← @applyDefault_eq_nil_iff _ _ _ routines]
  split at ended
  · rcases ended with impossible | impossible <;> cases impossible
  case h_2 empty => exact empty
  case h_3 =>
    rcases ended with impossible | impossible
    · cases impossible
    · simp only [Except.map, Except.error.injEq] at impossible
      exact absurd impossible.symm (noneMatch_ne_ambiguous sorted _ _)

variable (interp bindCheck args) in
/-- The matching candidates, each once, in the order of their tied groups. -/
structure ListsMatches (infos : List (CandidateInfo Ty Val Sub))
    (groups : List (List (CandidateInfo Ty Val Sub))) (subs : List Sub) : Prop where
  stratified : Stratified interp infos groups
  inOrder : subs = (groups.flatten.filter (isMatch interp bindCheck args)).map CandidateInfo.sub
  each : (groups.flatten.filter (isMatch interp bindCheck args)).Perm
    (infos.filter (isMatch interp bindCheck args))
  linear : (groups.flatten.filter (isMatch interp bindCheck args)).Pairwise fun a b =>
    isNarrower interp b a = false

theorem separated_of_sorted (sorts : sortCandidates interp routines dispatchees = .ok sorted) :
    ∃ groups nulls, Stratified interp (dispatchees.map (candidateInfo interp routines)) groups ∧
      0 < nulls ∧ separated groups ++ List.replicate nulls none = sorted := by
  unfold sortCandidates at sorts
  rw [← length_map (candidateInfo interp routines)] at sorts
  rcases @sortRounds_buildGraph _ _ _ _ interp (dispatchees.map (candidateInfo interp routines))
    with ⟨layers, layered, ends⟩ | ⟨dies, _⟩
  · have stratified := stratified_of_layers layered
    have few := length_le_flatten stratified.nonempty
    rw [stratified.each.length_eq] at few
    simp only [ends, Except.ok_bind] at sorts
    refine ⟨_, _, stratified, ?_, Except.ok.inj sorts⟩
    rw [separated_length, stratified.each.length_eq]
    omega
  · simp only [dies] at sorts
    cases sorts

theorem tiedGroups_of_sorted (sorts : sortCandidates interp routines dispatchees = .ok sorted) :
    ∃ groups, Stratified interp (dispatchees.map (candidateInfo interp routines)) groups ∧
      (tiedGroups sorted).flatten = groups.flatten ∧
      (∀ test, firstMatching test (tiedGroups sorted) = firstMatching test groups) ∧
      ∀ info, some info ∈ sorted → info ∈ groups.flatten := by
  rcases separated_of_sorted sorts with ⟨groups, nulls, stratified, ends, rfl⟩
  refine ⟨groups, stratified, ?_⟩
  have held : ∀ info, some info ∈ separated groups ++ List.replicate nulls none →
      info ∈ groups.flatten := by
    intro info member
    rcases mem_append.mp member with inGroups | padding
    · simpa [separated] using inGroups
    · simp at padding
  rw [tiedGroups_separated stratified.nonempty ends]
  split
  case isTrue none =>
    subst none
    exact ⟨rfl, fun _ => rfl, held⟩
  case isFalse => exact ⟨rfl, fun _ => rfl, held⟩

theorem settleAll_of_findsNone
    (none : (selectBest interp bindCheck args routines sorted).map Prod.fst =
        .ok .junctionThreader ∨ ((selectBest interp bindCheck args routines sorted).map Prod.fst =
          .error (noneMatch routines sorted) ∧ ∀ info, some info ∈ sorted →
          ¬CheckThrows interp bindCheck args (noneMatch routines sorted) info)) :
    settleAll interp bindCheck args (tiedGroups sorted) = .ok [] := by
  cases searched : searchGroups interp bindCheck args (tiedGroups sorted) true with
  | ok found =>
    rcases found with ⟨possibles, pureTypeResult⟩
    have empty := (selectBest_of_collected searched).2.2 (none.imp_right And.left)
    rw [empty] at searched
    exact settleAll_of_searchGroups_nil searched
  | error exception =>
    have thrown : (selectBest interp bindCheck args routines sorted).map Prod.fst =
        .error exception := by
      unfold selectBest
      rw [collectPossibles_eq_tiedGroups, searched]
      rfl
    rw [thrown] at none
    rcases none with impossible | ⟨same, notThrown⟩
    · cases impossible
    rcases settleAll_error <| settleAll_of_searchGroups_error searched with ⟨info, member, throws⟩
    rcases mem_flatten.mp member with ⟨group, isGroup, inGroup⟩
    rw [Except.error.injEq] at same
    rw [same] at throws
    exact absurd throws (notThrown info (mem_of_mem_tiedGroups isGroup inGroup))

/-- The enumeration of all matches and a dispatch agree: the list holds the
candidates that match, in the order of the sort; where the first group with a match
has only one, dispatch returns it and it comes first; and dispatch finds none if
and only if the list is empty. What the enumeration throws is the report of the
sort or comes from a bindability check. -/
theorem getAllMatches_agrees (ids : interp.CacheIds)
    (reachable : Reachable interp routines dispatchees state)
    (bindCheck : BindCheck Ty Val Sub) (args : Args Val) :
    (∀ subs, (getAllMatches interp bindCheck args routines dispatchees state).1 = .ok subs →
      ∃ groups, ListsMatches interp bindCheck args
          (dispatchees.map (candidateInfo interp routines)) groups subs ∧
        ∀ info, firstMatching (isMatch interp bindCheck args) groups = [info] →
          (mdDispatch interp bindCheck args routines dispatchees state).1 =
              .ok (.candidate info.sub) ∧ subs.head? = some info.sub) ∧
      ((getAllMatches interp bindCheck args routines dispatchees state).1 = .ok [] ↔
        FindsNone interp routines dispatchees bindCheck args
          (mdDispatch interp bindCheck args routines dispatchees state).1) ∧ ∀ exception,
        (getAllMatches interp bindCheck args routines dispatchees state).1 = .error exception →
          sortCandidates interp routines dispatchees = .error exception ∨
            ∃ sub ∈ dispatchees, CheckThrows interp bindCheck args exception
              (candidateInfo interp routines sub) := by
  rw [mdDispatch_eq_fresh ids reachable, mdDispatch_fresh, getAllMatches_reachable ids reachable]
  unfold FindsNone
  cases sorts : sortCandidates interp routines dispatchees with
  | error exception =>
    refine ⟨?_, ?_, ?_⟩
    · intro _ impossible
      cases impossible
    · simp
    · rintro _ ⟨⟩
      exact .inl rfl
  | ok sorted =>
    rcases tiedGroups_of_sorted sorts with ⟨groups, stratified, sameFlat, sameFirst, held⟩
    simp only [Except.ok.injEq, exists_eq_left', reduceCtorEq, false_or]
    refine ⟨?_, ?_, ?_⟩
    · intro subs enumerated
      rcases map_eq_ok_iff.mp enumerated with ⟨kept, settled, rfl⟩
      rcases settleAll_ok_iff.mp settled with ⟨returns, rfl⟩
      rw [sameFlat]
      refine ⟨groups, ⟨stratified, rfl, stratified.each.filter _,
        stratified.matches_pairwise _⟩, ?_⟩
      intro info single
      rcases searchGroups_of_checksReturn returns true with ⟨pureTypeResult, searched⟩
      rw [sameFirst, single] at searched
      apply And.intro ((selectBest_of_collected searched).2.1 info rfl)
      rw [head?_map, firstMatching_head _ single]
      rfl
    · constructor
      · intro enumerated
        rcases map_eq_ok_iff.mp enumerated with ⟨kept, settled, empty⟩
        rw [map_eq_nil_iff] at empty
        subst empty
        rcases settleAll_ok_iff.mp settled with ⟨returns, noMatch⟩
        rcases searchGroups_of_checksReturn returns true with ⟨pureTypeResult, searched⟩
        have none := (firstMatching_eq_nil_iff _).mpr noMatch.symm
        apply ((selectBest_of_collected searched).1 none).imp_right
        intro reports
        apply And.intro reports
        rintro info inSorted ⟨admits, named, checked, throws⟩
        have member := held info inSorted
        rw [← sameFlat] at member
        rcases mem_flatten.mp member with ⟨group, isGroup, inGroup⟩
        rcases returns group isGroup info inGroup admits named checked with ⟨bindable, result⟩
        rw [result] at throws
        cases throws
      · intro findsNone
        rw [settleAll_of_findsNone findsNone]
        rfl
    · intro exception enumerated
      cases settled : settleAll interp bindCheck args (tiedGroups sorted) with
      | ok kept =>
        rw [settled] at enumerated
        cases enumerated
      | error other =>
        rw [settled] at enumerated
        cases enumerated
        rcases settleAll_error settled with ⟨info, member, throws⟩
        rcases mem_flatten.mp member with ⟨group, isGroup, inGroup⟩
        rcases mem_sortCandidates sorts (mem_of_mem_tiedGroups isGroup inGroup) with
          ⟨sub, isDispatchee, rfl⟩
        exact ⟨sub, isDispatchee, throws⟩

/-- All matches of `multi f(Any $x)` and `multi f(Alpha $x)` for an `Alpha`. -/
theorem getAllMatches_agrees_alpha :
    ∃ groups, ListsMatches Diamond.interp (fun _ => .ok true) ⟨[.obj ⟨.alpha, true⟩], none⟩
        ([Diamond.multi [.any], Diamond.multi [.alpha]].map
          (candidateInfo Diamond.interp Diamond.routines))
        groups [Diamond.multi [.alpha], Diamond.multi [.any]] ∧
      ∀ info, firstMatching (isMatch Diamond.interp (fun _ => .ok true)
          ⟨[.obj ⟨.alpha, true⟩], none⟩) groups = [info] →
        (mdDispatch Diamond.interp (fun _ => .ok true) ⟨[.obj ⟨.alpha, true⟩], none⟩
            Diamond.routines [Diamond.multi [.any], Diamond.multi [.alpha]] none).1 =
            .ok (.candidate info.sub) ∧
          [Diamond.multi [.alpha], Diamond.multi [.any]].head? = some info.sub :=
  (getAllMatches_agrees Diamond.cacheIds .refl (fun _ => .ok true)
    ⟨[.obj ⟨.alpha, true⟩], none⟩).1 _ rfl

end

end RakudoStar.Multi
