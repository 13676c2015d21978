import RakudoStar.Multi.Narrowness
import RakudoStar.Multi.Sorting
import RakudoStar.Multi.Dispatch

/-!
# Tied groups

Whoever is narrower stands in an earlier group of the sort; the dispatcher finds a null pointer
after each group and two at the end.
-/

namespace RakudoStar.Multi

open Binder Foundation List

variable {Ty Val Sub : Type} [DecidableEq Ty] {interp : Interp Ty Val}
  {infos : List (CandidateInfo Ty Val Sub)}

variable (interp infos) in
/-- Tied groups, the narrower first, each in the order of declaration. -/
structure Stratified (groups : List (List (CandidateInfo Ty Val Sub))) : Prop where
  nonempty : ∀ group ∈ groups, group ≠ []
  each : groups.flatten.Perm infos
  declared : ∀ group ∈ groups, group.Sublist infos
  tied : ∀ group ∈ groups, ∀ a ∈ group, ∀ b ∈ group, isNarrower interp a b = false
  earlier : ∀ (i j : Nat) (group other : List (CandidateInfo Ty Val Sub)),
    groups[i]? = some group → groups[j]? = some other →
      ∀ a ∈ group, ∀ b ∈ other, isNarrower interp a b = true → i < j

/-- Groups with a null pointer after each. -/
def separated (groups : List (List (CandidateInfo Ty Val Sub))) : CandidateList Ty Val Sub :=
  groups.flatMap fun group => group.map some ++ [none]

variable (infos) in
/-- The candidates at some places. -/
def candidatesAt (places : List Nat) : List (CandidateInfo Ty Val Sub) :=
  places.filterMap fun k => infos[k]?

section
omit [DecidableEq Ty]

theorem candidatesAt_range : candidatesAt infos (range infos.length) = infos := by
  induction infos using List.reverseRecOn with
  | nil => rfl
  | append_singleton infos info ih =>
    have before : candidatesAt (infos ++ [info]) (range infos.length) =
        candidatesAt infos (range infos.length) := by
      apply filterMap_congr
      intro k inRange
      rw [getElem?_append_left (mem_range.mp inRange)]
    rw [length_append, length_singleton, range_succ, candidatesAt,
      filterMap_append, ← candidatesAt, before, ih]
    simp

theorem mem_candidatesAt {places : List Nat} {info : CandidateInfo Ty Val Sub} :
    info ∈ candidatesAt infos places ↔ ∃ k ∈ places, infos[k]? = some info :=
  mem_filterMap

theorem map_some_candidatesAt {places : List Nat} (inRange : ∀ k ∈ places, k < infos.length) :
    (candidatesAt infos places).map some = places.map fun k => infos[k]? := by
  induction places with
  | nil => rfl
  | cons k places ih =>
    have present := getElem?_eq_getElem (inRange k (by simp))
    have rest := ih fun other later => inRange other (by simp [later])
    rw [candidatesAt, filterMap_cons, present, map_cons, map_cons, present]
    exact congrArg _ rest

end

theorem narrowerAt_of_isNarrower {i j : Nat} {a b : CandidateInfo Ty Val Sub}
    (first : infos[i]? = some a) (second : infos[j]? = some b)
    (narrower : isNarrower interp a b = true) : narrowerAt interp infos i j = true := by
  have differ : i ≠ j := by
    rintro rfl
    cases first.symm.trans second
    rw [isNarrower_self] at narrower
    cases narrower
  simp [narrowerAt, differ, first, second, narrower]

theorem stratified_of_layers {layers : List (List Nat)}
    (sorted : Layers (narrowerAt interp infos) infos.length (fun _ => false) layers) :
    Stratified interp infos (layers.map (candidatesAt infos)) := by
  have inRange : ∀ places ∈ layers, ∀ k ∈ places, k < infos.length := fun places isLayer k mem =>
    mem_range.mp ((sorted.sublist_range places isLayer).subset mem)
  rcases sorted.sorted with ⟨independent, ordered⟩
  constructor
  · intro group isGroup
    rcases mem_map.mp isGroup with ⟨places, isLayer, rfl⟩
    intro empty
    have shape := @map_some_candidatesAt _ _ _ infos places (inRange places isLayer)
    rw [empty] at shape
    exact sorted.ne_nil places isLayer (map_eq_nil_iff.mp shape.symm)
  · have flat : (layers.map (candidatesAt infos)).flatten = candidatesAt infos layers.flatten :=
      filterMap_flatten.symm
    rw [flat]
    have all := sorted.flatten_perm.filterMap fun k => infos[k]?
    have whole : left infos.length (fun _ => false) = range infos.length := by
      simp [left]
    rw [whole] at all
    have range := @candidatesAt_range _ _ _ infos
    unfold candidatesAt at range ⊢
    rw [range] at all
    exact all
  · intro group isGroup
    rcases mem_map.mp isGroup with ⟨places, isLayer, rfl⟩
    have within := (sorted.sublist_range places isLayer).filterMap fun k => infos[k]?
    have range := @candidatesAt_range _ _ _ infos
    unfold candidatesAt at range
    rw [range] at within
    exact within
  · intro group isGroup a inGroup b alsoInGroup
    rcases mem_map.mp isGroup with ⟨places, isLayer, rfl⟩
    rcases mem_candidatesAt.mp inGroup with ⟨i, iPlace, first⟩
    rcases mem_candidatesAt.mp alsoInGroup with ⟨j, jPlace, second⟩
    rw [Bool.eq_false_iff]
    intro narrower
    have related := narrowerAt_of_isNarrower first second narrower
    rw [independent places isLayer i iPlace j jPlace] at related
    cases related
  · intro i j group other isGroup isOther a inGroup b inOther narrower
    rw [getElem?_map] at isGroup isOther
    rcases Option.map_eq_some_iff.mp isGroup with ⟨places, isLayer, rfl⟩
    rcases Option.map_eq_some_iff.mp isOther with ⟨others, isOtherLayer, rfl⟩
    rcases mem_candidatesAt.mp inGroup with ⟨k, kPlace, first⟩
    rcases mem_candidatesAt.mp inOther with ⟨l, lPlace, second⟩
    have related := narrowerAt_of_isNarrower first second narrower
    rcases List.getElem?_eq_some_iff.mp isLayer with ⟨iBound, rfl⟩
    rcases List.getElem?_eq_some_iff.mp isOtherLayer with ⟨jBound, rfl⟩
    rcases lt_trichotomy i j with before | rfl | behind
    · exact before
    · rw [independent _ (getElem_mem iBound) k kPlace l lPlace] at related
      cases related
    · rw [pairwise_iff_getElem.mp ordered j i jBound iBound behind k kPlace l lPlace] at related
      cases related

section
omit [DecidableEq Ty]

theorem groupsAt_eq_separated {layers : List (List Nat)}
    (inRange : ∀ places ∈ layers, ∀ k ∈ places, k < infos.length) :
    groupsAt infos layers = separated (layers.map (candidatesAt infos)) := by
  unfold groupsAt separated
  rw [flatMap_map]
  apply flatMap_congr
  intro places isLayer
  rw [map_some_candidatesAt (inRange places isLayer)]

theorem separated_length (groups : List (List (CandidateInfo Ty Val Sub))) :
    (separated groups).length = groups.flatten.length + groups.length := by
  induction groups with
  | nil => rfl
  | cons group groups ih =>
    unfold separated at ih ⊢
    rw [flatMap_cons, length_append, ih, flatten_cons]
    simp only [length_append, length_map, length_cons, length_nil]
    omega

theorem length_le_flatten {α : Type} {groups : List (List α)}
    (nonempty : ∀ group ∈ groups, group ≠ []) : groups.length ≤ groups.flatten.length := by
  induction groups with
  | nil => rfl
  | cons group groups ih =>
    have first := length_pos_of_ne_nil (nonempty group (by simp))
    have rest := ih fun other later => nonempty other (by simp [later])
    simp only [length_cons, flatten_cons, length_append]
    omega

end

theorem sortRounds_buildGraph :
    (∃ layers, Layers (narrowerAt interp infos) infos.length (fun _ => false) layers ∧
        sortRounds infos.length infos.length (buildGraph interp infos) [] =
          .ok (separated (layers.map (candidatesAt infos)))) ∨
      (sortRounds infos.length infos.length (buildGraph interp infos) [] =
          .error ⟨"Circularity detected in multi sub types."⟩ ∧
        ¬Acyclic (narrowerAt interp infos) infos.length) := by
  have whole : (left infos.length fun _ => false).length = infos.length := by
    simp [left]
  have closed : ClosedBefore interp infos fun _ => false := by
    intro i j _ _ gone
    cases gone
  rcases @sortRounds_layers _ _ _ _ interp infos _ _ infos.length infos.length []
      closed buildGraph_state whole le_rfl with ⟨layers, sorted, ends⟩ | ⟨dies, none⟩
  · left
    refine ⟨layers, sorted, ?_⟩
    rw [ends, nil_append]
    apply congrArg
    apply groupsAt_eq_separated
    intro places isLayer k mem
    exact mem_range.mp ((sorted.sublist_range places isLayer).subset mem)
  right
  apply And.intro dies
  intro acyclic
  rcases exists_layers acyclic (fun _ => false) with ⟨layers, sorted⟩
  exact none layers sorted

/-- A sort that reports no error gives the candidates in tied groups, with a null
pointer after each group and at least two more at the end of the array. -/
theorem sortCandidates_stratified {routines : Routines Ty Val Sub} {candidates : List Sub}
    {sorted : CandidateList Ty Val Sub}
    (sorts : sortCandidates interp routines candidates = .ok sorted) :
    ∃ (groups : List (List (CandidateInfo Ty Val Sub))) (nulls : Nat),
      Stratified interp (candidates.map (candidateInfo interp routines)) groups ∧
        sorted = separated groups ++ replicate nulls none ∧
        2 ≤ nulls ∧ sorted.length = 2 * candidates.length + 2 := by
  unfold sortCandidates at sorts
  have size : candidates.length = (candidates.map (candidateInfo interp routines)).length := by
    simp
  rcases @sortRounds_buildGraph _ _ _ _ interp (candidates.map (candidateInfo interp routines))
    with ⟨layers, layered, ends⟩ | ⟨dies, _⟩
  · rw [← size] at ends
    simp only [ends, Except.ok_bind, Except.ok.injEq] at sorts
    have stratified := stratified_of_layers layered
    have each := stratified.each.length_eq
    have few := length_le_flatten stratified.nonempty
    have length := separated_length (layers.map
      (candidatesAt (candidates.map (candidateInfo interp routines))))
    rw [length_map] at each
    refine ⟨_, _, stratified, sorts.symm, by omega, ?_⟩
    rw [← sorts, length_append, length_replicate]
    omega
  · rw [← size] at dies
    simp only [dies] at sorts
    cases sorts

/-- `multi f(Alpha $x)` and `multi f(Any $x)`. -/
theorem sortCandidates_stratified_alpha :
    ∃ (groups : List (List (CandidateInfo Diamond.Ty Diamond.Val
        (List (Parameter Diamond.Ty Diamond.Val))))) (nulls : Nat),
      Stratified Diamond.interp ([Diamond.multi [.any], Diamond.multi [.alpha]].map
          (candidateInfo Diamond.interp Diamond.routines)) groups ∧
        [some (candidateInfo Diamond.interp Diamond.routines (Diamond.multi [.alpha])), none,
          some (candidateInfo Diamond.interp Diamond.routines (Diamond.multi [.any])), none,
          none, none] = separated groups ++ replicate nulls none ∧ 2 ≤ nulls ∧ 6 = 2 * 2 + 2 :=
  sortCandidates_stratified rfl

end RakudoStar.Multi

namespace RakudoStar.Multi

open Binder Foundation

variable {Ty Val Sub : Type} [DecidableEq Ty] {infos : List (CandidateInfo Ty Val Sub)}

theorem narrowerOf_of_before {i j : Nat}
    (path : Relation.TransGen (Before (narrowerAt interp infos) infos.length) i j) :
    ∃ a b, infos[i]? = some a ∧ infos[j]? = some b ∧
      Relation.TransGen (NarrowerOf interp infos) a b := by
  have single : ∀ {i j}, Before (narrowerAt interp infos) infos.length i j →
      ∃ a b, infos[i]? = some a ∧ infos[j]? = some b ∧ NarrowerOf interp infos a b := by
    rintro i j ⟨iBound, jBound, related⟩
    have first := List.getElem?_eq_getElem iBound
    have second := List.getElem?_eq_getElem jBound
    simp only [narrowerAt, first, second, Option.any_some, Bool.and_eq_true] at related
    exact ⟨_, _, first, second, List.getElem_mem iBound, List.getElem_mem jBound, related.2⟩
  induction path with
  | single step =>
    rcases single step with ⟨a, b, first, second, narrower⟩
    exact ⟨a, b, first, second, .single narrower⟩
  | tail _ step ih =>
    rcases ih with ⟨a, b, first, second, path⟩
    rcases single step with ⟨b', c, second', third, narrower⟩
    cases second.symm.trans second'
    exact ⟨a, c, first, third, path.tail narrower⟩

theorem before_of_narrowerOf {a b : CandidateInfo Ty Val Sub}
    (path : Relation.TransGen (NarrowerOf interp infos) a b) :
    ∀ i j, infos[i]? = some a → infos[j]? = some b →
      Relation.TransGen (Before (narrowerAt interp infos) infos.length) i j := by
  have single : ∀ {a b}, NarrowerOf interp infos a b →
      ∀ i j, infos[i]? = some a → infos[j]? = some b →
        Before (narrowerAt interp infos) infos.length i j := by
    rintro a b ⟨_, _, narrower⟩ i j first second
    exact ⟨(getElem?_eq_some_iff.mp first).1, (getElem?_eq_some_iff.mp second).1,
      narrowerAt_of_isNarrower first second narrower⟩
  induction path with
  | single step =>
    intro i j first second
    exact .single (single step i j first second)
  | tail _ step ih =>
    intro i j first third
    rcases List.mem_iff_getElem?.mp step.1 with ⟨k, second⟩
    exact (ih i k first second).tail (single step k j second third)

theorem acyclic_iff_not_circular :
    Acyclic (narrowerAt interp infos) infos.length ↔ ¬Circular interp infos := by
  constructor
  · rintro acyclic ⟨info, cycle⟩
    rcases List.mem_iff_getElem?.mp (transGen_members cycle).1 with ⟨i, present⟩
    exact acyclic i (before_of_narrowerOf cycle i i present present)
  intro none i cycle
  rcases narrowerOf_of_before cycle with ⟨a, b, first, second, path⟩
  cases first.symm.trans second
  exact none ⟨a, path⟩

/-- The sort reports circularity exactly when there is a cycle. -/
theorem sortCandidates_error_iff {routines : Routines Ty Val Sub} {candidates : List Sub} :
    sortCandidates interp routines candidates =
        .error ⟨"Circularity detected in multi sub types."⟩ ↔
      Circular interp (candidates.map (candidateInfo interp routines)) := by
  have size : candidates.length = (candidates.map (candidateInfo interp routines)).length := by
    simp
  unfold sortCandidates
  rcases @sortRounds_buildGraph _ _ _ _ interp (candidates.map (candidateInfo interp routines))
    with ⟨layers, layered, ends⟩ | ⟨dies, cyclic⟩
  · rw [← size] at ends
    have notCircular := acyclic_iff_not_circular.mp layered.acyclic
    simp only [ends, Except.ok_bind, reduceCtorEq, false_iff]
    exact notCircular
  rw [← size] at dies
  rw [acyclic_iff_not_circular, not_not] at cyclic
  simp only [dies, cyclic, iff_true]
  rfl

/-- Over a type check that is a partial order, no candidate is narrower than
itself and no two are narrower than each other; the sort reports circularity
exactly when there is a longer cycle, and there is none where the entries at each
position are weakly ordered and the candidates compare the same number of types
or are not told apart by the tie breaks. -/
theorem isNarrower_circularity (order : interp.TypeOrder) :
    (∀ a : CandidateInfo Ty Val Sub, isNarrower interp a a = false) ∧
      (∀ a b : CandidateInfo Ty Val Sub, isNarrower interp a b = true →
        isNarrower interp b a = false) ∧
      (∀ (routines : Routines Ty Val Sub) (candidates : List Sub),
        sortCandidates interp routines candidates =
            .error ⟨"Circularity detected in multi sub types."⟩ ↔
          Circular interp (candidates.map (candidateInfo interp routines))) ∧
      ∀ infos : List (CandidateInfo Ty Val Sub), WeaklyOrdered interp infos →
        (∃ n, ∀ info ∈ infos, info.numTypes = n) ∨ SameTieBreaks infos → ¬Circular interp infos :=
  ⟨fun _ => isNarrower_self, fun _ _ => isNarrower_asymm order,
    fun _ _ => sortCandidates_error_iff, fun _ ordered => ordered.not_circular order⟩

/-- The candidates `f(Any $x)` and `f(Alpha $x)`. -/
def Diamond.chain : List (CandidateInfo Diamond.Ty Diamond.Val
    (List (Parameter Diamond.Ty Diamond.Val))) :=
  [Diamond.multi [.any], Diamond.multi [.alpha]].map (candidateInfo Diamond.interp Diamond.routines)

theorem Diamond.weaklyOrdered_chain : WeaklyOrdered Diamond.interp Diamond.chain := by
  apply weaklyOrdered_of_chain Diamond.typeOrder
  have entry : ∀ a ∈ Diamond.chain, ∀ (k : Nat) (x : TypeSlot Diamond.Ty Diamond.Val),
      a.slots[k]? = some x → (x.type = .any ∨ x.type = .alpha) ∧ x.native = none := by
    intro a member k x present
    have inSlots := List.mem_of_getElem? present
    rcases List.mem_cons.mp member with rfl | member
    · cases List.mem_singleton.mp inSlots
      exact ⟨.inl rfl, rfl⟩
    cases List.mem_singleton.mp member
    cases List.mem_singleton.mp inSlots
    exact ⟨.inr rfl, rfl⟩
  intro a aMember b bMember k x y first second
  rcases entry a aMember k x first with ⟨xType, xNative⟩
  rcases entry b bMember k y second with ⟨yType, yNative⟩
  constructor
  · rcases xType with xType | xType <;> rcases yType with yType | yType <;>
      rw [xType, yType] <;> decide
  · intro _
    rw [xNative, yNative]

theorem isNarrower_circularity_chain : isNarrower Diamond.interp
        (candidateInfo Diamond.interp Diamond.routines (Diamond.multi [.any]))
        (candidateInfo Diamond.interp Diamond.routines (Diamond.multi [.alpha])) = false ∧
      ¬Circular Diamond.interp Diamond.chain :=
  ⟨(isNarrower_circularity Diamond.typeOrder).2.1 _ _ rfl,
    (isNarrower_circularity Diamond.typeOrder).2.2.2 _ Diamond.weaklyOrdered_chain
      (.inl ⟨1, by decide⟩)⟩

/-- Over `Gamma`, its base `Alpha` and the unrelated `Int`, three candidates with
one of each are narrower than each other all round. -/
theorem Diamond.circular : Diamond.interp.TypeOrder ∧
      (let first := candidateInfo Diamond.interp Diamond.routines
          (Diamond.multi [.gamma, .int, .alpha])
        let second := candidateInfo Diamond.interp Diamond.routines
          (Diamond.multi [.alpha, .gamma, .int])
        let third := candidateInfo Diamond.interp Diamond.routines
          (Diamond.multi [.int, .alpha, .gamma])
        isNarrower Diamond.interp first second = true ∧
          isNarrower Diamond.interp second third = true ∧
          isNarrower Diamond.interp third first = true) ∧
      sortCandidates Diamond.interp Diamond.routines
          [Diamond.multi [.gamma, .int, .alpha], Diamond.multi [.alpha, .gamma, .int],
            Diamond.multi [.int, .alpha, .gamma]] =
        .error ⟨"Circularity detected in multi sub types."⟩ :=
  ⟨Diamond.typeOrder, ⟨rfl, rfl, rfl⟩, rfl⟩

/-- `(Any, Any)`, `(Gamma, *@r)` and `(Alpha ;; $y)`. -/
example : sortCandidates Diamond.interp Diamond.routines
        [Diamond.multi [.any, .any],
          Diamond.multi [.gamma] ++ [.mk (Diamond.param .any [.slurpyPos]) none],
          Diamond.multi [.alpha] ++ [.mk (Diamond.param .any []) none]] =
      .error ⟨"Circularity detected in multi sub types."⟩ :=
  rfl

end RakudoStar.Multi
