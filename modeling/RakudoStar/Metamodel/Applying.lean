import RakudoStar.Metamodel.Slots
import RakudoStar.Foundation.Except

/-!
# What applying roles does

`RoleToRoleApplier.apply` dies while it adds the methods or of a conflict of attributes, or
leaves under each name what the methods on offer make of it.
-/

namespace RakudoStar.Metamodel

open Foundation SixModel List

variable {M A C : Type} [DecidableEq M]

/-- A composition died in `add_method`. -/
def DiesAddingMethod (result : Composing M A C (Target M A C)) : Prop :=
  ∃ package name target, result = .error (.alreadyHasMethod package name, target)

/-- A composition died of a conflict between attributes. -/
def DiesOfConflict (result : Composing M A C (Target M A C)) : Prop :=
  ∃ name target, result = .error (.attributeConflict name, target)

/-- The target as a composition leaves it, also where it dies. -/
def targetAfter : Composing M A C (Target M A C) → Target M A C
  | .ok target => target
  | .error (_, target) => target

variable {code : CodeObjects M} {naming : Naming A C} {target next : Target M A C}
  {roles : List (Role M A C)}

/-- What a composition leaves under a name. -/
def finalSlot (code : CodeObjects M) (target : Target M A C) (roles : List (Role M A C))
    (name : String) : Slot M :=
  ((target.slot name).compose code (gather code [] (offersOf roles name))).composePrivate
    (gather code [] (privateOffersOf roles name))

section
omit [DecidableEq M]

theorem Slot.compose_nil (slot : Slot M) : slot.compose code [] = slot := by
  unfold Slot.compose
  split
  · rfl
  · rfl

theorem Slot.composePrivate_nil (slot : Slot M) : slot.composePrivate [] = slot := by
  unfold Slot.composePrivate
  split <;> rfl

/-- A walk over the hash acts on a slot with the methods under the name. -/
theorem afterWalk_methInfo {effect : Slot M → List M → Slot M}
    (idle : ∀ slot, effect slot [] = slot) (info : MethInfo M) (name : String) (before : Slot M) :
    afterWalk (fun slot offers => effect slot offers.meths) info.entries name before =
      effect before (methsUnder info name) := by
  unfold afterWalk methsUnder
  rw [FiniteMap.lookup]
  cases lookupEntry nameEq name info.entries with
  | none => exact (idle before).symm
  | some offers => rfl

theorem slot_privateWalk (info : MethInfo M) (target : Target M A C) (name : String) :
    (info.entries.foldl composePrivateMethod target).slot name =
      (target.slot name).composePrivate (methsUnder info name) := by
  have walk := (composePrivateMethod_actsByName.walk info.distinct target).2
  have pureFold : ∀ entries : List (String × Offers M), ∀ target : Target M A C,
      entries.foldlM (fun target entry =>
        (.ok (composePrivateMethod target entry) : Except Unit _)) target =
        .ok (entries.foldl composePrivateMethod target) := by
    intro entries
    induction entries with
    | nil => exact fun target => rfl
    | cons entry entries ih =>
      intro target
      exact ih _
  rw [walk _ (pureFold info.entries target) name, afterWalk_methInfo Slot.composePrivate_nil]

end

theorem composeMethods_spec (target : Target M A C) (roles : List (Role M A C)) :
    ((∃ error, composeMethods code target roles = .error error) ↔
        ∃ name, target.methods.lookup name = none ∧ (target.submethods.lookup name).isSome ∧
          ∃ meth, choice code (offersOf roles name) = some (.add meth)) ∧
      ∀ next, composeMethods code target roles = .ok next → ∀ name,
        next.slot name = finalSlot code target roles name := by
  rcases composeMethod_actsByName.walk (methInfo code roles).distinct target with ⟨dies, ends⟩
  constructor
  · have walkDies : (∃ error, composeMethods code target roles = .error error) ↔
        ∃ error, (methInfo code roles).entries.foldlM (composeMethod code) target =
          .error error := by
      unfold composeMethods
      cases (methInfo code roles).entries.foldlM (composeMethod code) target with
      | error error => exact ⟨fun _ => ⟨error, rfl⟩, fun _ => ⟨error, rfl⟩⟩
      | ok next =>
        constructor
        · rintro ⟨error, died⟩
          cases died
        · rintro ⟨error, died⟩
          cases died
    rw [walkDies, dies]
    constructor
    · rintro ⟨entry, member, noMethod, taken, meth, chosen⟩
      refine ⟨entry.1, noMethod, taken, meth, ?_⟩
      rw [choice, ← methsUnder_methInfo, methsUnder_of_mem member]
      exact chosen
    rintro ⟨name, noMethod, taken, meth, chosen⟩
    have nonempty : methsUnder (methInfo code roles) name ≠ [] := by
      intro empty
      rw [choice, ← methsUnder_methInfo, empty] at chosen
      cases chosen
    rcases exists_mem_of_methsUnder nonempty with ⟨entry, member, rfl, methsEq⟩
    refine ⟨entry, member, noMethod, taken, meth, ?_⟩
    rw [methsEq, methsUnder_methInfo]
    exact chosen
  · intro next composed name
    unfold composeMethods at composed
    rcases Except.map_eq_ok_iff.mp composed with ⟨middle, walked, rfl⟩
    rw [slot_privateWalk, ends middle walked name, afterWalk_methInfo Slot.compose_nil,
      methsUnder_methInfo, methsUnder_privMethInfo]
    rfl

theorem composeMethods_error
    {error : ApplyError × Target M A C} (died : composeMethods code target roles = .error error) :
    ∃ package name, error.1 = .alreadyHasMethod package name := by
  unfold composeMethods at died
  cases walked : (methInfo code roles).entries.foldlM (composeMethod code) target with
  | ok next =>
    rw [walked] at died
    cases died
  | error walkError =>
    rw [walked] at died
    cases died
    generalize (methInfo code roles).entries = entries at walked
    induction entries generalizing target with
    | nil => cases walked
    | cons entry entries ih =>
      rw [foldlM_cons] at walked
      cases stepped : composeMethod code target entry with
      | ok next =>
        rw [stepped] at walked
        exact ih walked
      | error stepError =>
        rw [stepped] at walked
        cases walked
        unfold composeMethod at stepped
        split at stepped
        · cases stepped
        split at stepped
        · unfold Target.addMethod at stepped
          split at stepped
          · cases stepped
            exact ⟨_, _, rfl⟩
          · split at stepped <;> cases stepped
        · cases stepped
        · cases stepped

/-- A step of the rest leaves the slots alone and never adds a method. -/
structure LeavesSlots (result : Composing M A C (Target M A C)) (target : Target M A C) : Prop where
  slots : ∀ name, (targetAfter result).slot name = target.slot name
  adding : ¬DiesAddingMethod result

omit [DecidableEq M] in
theorem LeavesSlots.of_eq {result : Composing M A C (Target M A C)}
    (slots : ∀ name, (targetAfter result).slot name = target.slot name)
    (other : ∀ package name after, result ≠ .error (.alreadyHasMethod package name, after)) :
    LeavesSlots result target := by
  refine ⟨slots, ?_⟩
  rintro ⟨package, name, after, died⟩
  exact other package name after died

omit [DecidableEq M] in
theorem LeavesSlots.foldlM {X : Type} {step : Target M A C → X → Composing M A C (Target M A C)}
    (each : ∀ target entry, LeavesSlots (step target entry) target) (entries : List X)
    (target : Target M A C) : LeavesSlots (entries.foldlM step target) target := by
  induction entries generalizing target with
  | nil => exact .of_eq (fun _ => rfl) (by simp [pure, Except.pure])
  | cons entry entries ih =>
    have first := each target entry
    rw [foldlM_cons]
    cases stepped : step target entry with
    | error error =>
      rw [stepped] at first
      exact first
    | ok next =>
      rw [stepped] at first
      have rest := ih next
      exact ⟨fun name => (rest.slots name).trans (first.slots name), rest.adding⟩

section

variable [DecidableEq A] [DecidableEq C]

omit [DecidableEq M] [DecidableEq C] in
theorem composeAttribute_leavesSlots (target : Target M A C) (attr : A) :
    LeavesSlots (composeAttribute naming target attr) target := by
  unfold composeAttribute
  split
  · exact .of_eq (fun _ => rfl) (by simp)
  split
  · exact .of_eq (fun _ => rfl) (by simp)
  unfold Target.addAttribute
  split
  · exact .of_eq (fun _ => rfl) (by simp)
  · exact .of_eq (fun _ => rfl) (by simp)

omit [DecidableEq M] [DecidableEq A] in
theorem addParent_leavesSlots (target : Target M A C) (parent : C) :
    LeavesSlots (target.addParent naming parent) target := by
  unfold Target.addParent
  split
  · exact .of_eq (fun _ => rfl) (by simp)
  split
  · exact .of_eq (fun _ => rfl) (by simp)
  split
  · exact .of_eq (fun _ => rfl) (by simp)
  · exact .of_eq (fun _ => rfl) (by simp)

omit [DecidableEq M] in
theorem composeRest_leavesSlots (target : Target M A C) (role : Role M A C) :
    LeavesSlots (composeRest naming target role) target := by
  have attributes := LeavesSlots.foldlM (@composeAttribute_leavesSlots M A C naming _)
    role.attributes target
  unfold composeRest
  cases walked : role.attributes.foldlM (composeAttribute naming) target with
  | error error =>
    rw [walked] at attributes
    exact attributes
  | ok middle =>
    rw [walked] at attributes
    have parents := LeavesSlots.foldlM (@addParent_leavesSlots M A C naming _) role.parents
      { middle with multiMethods := middle.multiMethods ++ role.multiMethodsToIncorporate }
    exact ⟨fun name => (parents.slots name).trans (attributes.slots name), parents.adding⟩

theorem apply_spec (target : Target M A C) (roles : List (Role M A C)) :
    (DiesAddingMethod (apply code naming target roles) ↔ ∃ name, target.methods.lookup name = none ∧
          (target.submethods.lookup name).isSome ∧
          ∃ meth, choice code (offersOf roles name) = some (.add meth)) ∧
      (¬DiesAddingMethod (apply code naming target roles) → ∀ name,
        (targetAfter (apply code naming target roles)).slot name =
          finalSlot code target roles name) := by
  rcases @composeMethods_spec _ A C _ code target roles with ⟨dies, ends⟩
  unfold apply
  cases composed : composeMethods code target roles with
  | error error =>
    rcases composeMethods_error composed with ⟨package, name, isMethod⟩
    have died : DiesAddingMethod (M := M) (A := A) (C := C) (.error error) :=
      ⟨package, name, error.2, by rw [← isMethod]⟩
    constructor
    · constructor
      · intro
        exact dies.mp ⟨error, composed⟩
      · intro
        exact died
    · intro alive
      exact absurd died alive
  | ok next =>
    have rest := LeavesSlots.foldlM (@composeRest_leavesSlots M A C naming _ _) roles next
    constructor
    · constructor
      · intro died
        exact absurd died rest.adding
      intro isBlocked
      rcases dies.mpr isBlocked with ⟨error, died⟩
      rw [composed] at died
      cases died
    · intro _ name
      exact (rest.slots name).trans (ends next composed name)

/-- One of the attributes to compose has the name of another that is there or is
to be composed. -/
def Conflicts (naming : Naming A C) (present attrs : List A) : Prop :=
  ∃ attr ∈ attrs, ∃ other, (other ∈ present ∨ other ∈ attrs) ∧ other ≠ attr ∧
    naming.attr other = naming.attr attr

omit [DecidableEq M] [DecidableEq A] [DecidableEq C] in
theorem conflicts_append {present first second : List A} :
    Conflicts naming present (first ++ second) ↔
      Conflicts naming present first ∨ Conflicts naming (present ++ first) second := by
  constructor
  · rintro ⟨attr, member, other, place, differ, named⟩
    rcases mem_append.mp member with inFirst | inSecond
    · rcases place with inPresent | inBoth
      · exact .inl ⟨attr, inFirst, other, .inl inPresent, differ, named⟩
      rcases mem_append.mp inBoth with otherInFirst | otherInSecond
      · exact .inl ⟨attr, inFirst, other, .inr otherInFirst, differ, named⟩
      · exact .inr ⟨other, otherInSecond, attr, .inl (mem_append_right _ inFirst),
          differ.symm, named.symm⟩
    right
    refine ⟨attr, inSecond, other, ?_, differ, named⟩
    rcases place with inPresent | inBoth
    · exact .inl (mem_append_left _ inPresent)
    rcases mem_append.mp inBoth with otherInFirst | otherInSecond
    · exact .inl (mem_append_right _ otherInFirst)
    · exact .inr otherInSecond
  · rintro (⟨attr, member, other, place, differ, named⟩ |
      ⟨attr, member, other, place, differ, named⟩)
    · refine ⟨attr, mem_append_left _ member, other, ?_, differ, named⟩
      exact place.imp_right (mem_append_left _)
    refine ⟨attr, mem_append_right _ member, other, ?_, differ, named⟩
    rcases place with inBoth | inSecond
    · exact (mem_append.mp inBoth).imp_right (mem_append_left _)
    · exact .inr (mem_append_right _ inSecond)

omit [DecidableEq M] [DecidableEq A] [DecidableEq C] in
theorem conflicts_congr {present other attrs : List A}
    (same : ∀ attr, attr ∈ present ↔ attr ∈ other) :
    Conflicts naming present attrs ↔ Conflicts naming other attrs := by
  simp only [Conflicts, same]

/-- Composing attributes dies of a conflict, or leaves them all in the target. -/
structure ComposesAttributes (naming : Naming A C) (target : Target M A C) (attrs : List A)
    (result : Composing M A C (Target M A C)) : Prop where
  conflicts : DiesOfConflict result ↔ Conflicts naming target.attributes attrs
  composed : ¬Conflicts naming target.attributes attrs → ∃ next, result = .ok next ∧
    ∀ attr, attr ∈ next.attributes ↔ attr ∈ target.attributes ++ attrs

section
omit [DecidableEq M] [DecidableEq A] [DecidableEq C]

variable {attrs : List A}

theorem ComposesAttributes.of_ok (free : ¬Conflicts naming target.attributes attrs)
    (members : ∀ attr, attr ∈ next.attributes ↔ attr ∈ target.attributes ++ attrs) :
    ComposesAttributes naming target attrs (.ok next) where
  conflicts := by
    constructor
    · rintro ⟨name, after, died⟩
      cases died
    · intro conflict
      exact absurd conflict free
  composed _ := ⟨next, rfl, members⟩

theorem ComposesAttributes.of_conflict {after : Target M A C}
    {name : String} (conflict : Conflicts naming target.attributes attrs) :
    ComposesAttributes naming target attrs (.error (.attributeConflict name, after)) where
  conflicts := ⟨fun _ => conflict, fun _ => ⟨name, after, rfl⟩⟩
  composed free := absurd conflict free

theorem ComposesAttributes.bind {first second : List A} {result : Composing M A C (Target M A C)}
    {next : Target M A C → Composing M A C (Target M A C)}
    (composes : ComposesAttributes naming target first result)
    (further : ∀ middle, ComposesAttributes naming middle second (next middle)) :
    ComposesAttributes naming target (first ++ second) (result >>= next) := by
  by_cases conflict : Conflicts naming target.attributes first
  · rcases composes.conflicts.mpr conflict with ⟨name, after, rfl⟩
    exact .of_conflict (conflicts_append.mpr (.inl conflict))
  rcases composes.composed conflict with ⟨middle, rfl, members⟩
  have rest := further middle
  have same : Conflicts naming middle.attributes second ↔
      Conflicts naming target.attributes (first ++ second) := by
    rw [conflicts_append, conflicts_congr members]
    exact ⟨.inr, fun either => either.resolve_left conflict⟩
  constructor
  · exact rest.conflicts.trans same
  intro free
  rcases rest.composed (fun again => free (same.mp again)) with ⟨last, ends, lastMembers⟩
  refine ⟨last, ends, ?_⟩
  intro attr
  rw [lastMembers attr, mem_append, members attr]
  simp [or_assoc]

end

omit [DecidableEq M] [DecidableEq C] in
theorem composeAttribute_composes (target : Target M A C) (attr : A) :
    ComposesAttributes naming target [attr] (composeAttribute naming target attr) := by
  unfold composeAttribute
  split
  · rename_i other search
    have test := find?_some search
    have inTarget := mem_of_find?_eq_some search
    simp only [ne_eq, Bool.and_eq_true, decide_eq_true_eq] at test
    exact .of_conflict ⟨attr, mem_singleton.mpr rfl, other, .inl inTarget, by
      simpa using test.1, test.2⟩
  rename_i search
  have free : ¬Conflicts naming target.attributes [attr] := by
    rintro ⟨same, isAttr, other, place, differ, named⟩
    rw [mem_singleton.mp isAttr] at differ named
    rcases place with inTarget | isAttr'
    · have refused := find?_eq_none.mp search other inTarget
      exact refused (by simp [differ, named])
    · exact differ (mem_singleton.mp isAttr')
  split
  · rename_i present
    apply ComposesAttributes.of_ok free
    intro other
    rw [mem_append, mem_singleton]
    constructor
    · exact .inl
    rintro (member | rfl)
    · exact member
    · exact contains_iff_mem.mp present
  rename_i absent
  unfold Target.addAttribute
  split
  · rename_i taken
    rcases any_eq_true.mp taken with ⟨other, inTarget, named⟩
    have differ : other ≠ attr := by
      rintro rfl
      exact absent (contains_iff_mem.mpr inTarget)
    exact absurd ⟨attr, mem_singleton.mpr rfl, other, .inl inTarget, differ,
      of_decide_eq_true named⟩ free
  · exact .of_ok free fun other => Iff.rfl

omit [DecidableEq M] [DecidableEq C] in
theorem foldlM_composeAttribute_composes (target : Target M A C) (attrs : List A) :
    ComposesAttributes naming target attrs (attrs.foldlM (composeAttribute naming) target) := by
  induction attrs generalizing target with
  | nil =>
    apply ComposesAttributes.of_ok
    · rintro ⟨attr, absent, _⟩
      cases absent
    · intro attr
      rw [append_nil]
  | cons attr attrs ih =>
    rw [foldlM_cons]
    exact (composeAttribute_composes target attr).bind ih

omit [DecidableEq M] in
theorem composeRest_composes (target : Target M A C) (role : Role M A C)
    (noParents : role.parents = []) :
    ComposesAttributes naming target role.attributes (composeRest naming target role) := by
  have withMultis : ∀ middle : Target M A C, ComposesAttributes naming middle []
      (.ok { middle with
        multiMethods := middle.multiMethods ++ role.multiMethodsToIncorporate }) := by
    intro middle
    apply ComposesAttributes.of_ok
    · rintro ⟨attr, absent, _⟩
      cases absent
    · intro attr
      rw [append_nil]
  have composes := (foldlM_composeAttribute_composes target role.attributes).bind withMultis
  rw [append_nil] at composes
  unfold composeRest
  rw [noParents]
  exact composes

omit [DecidableEq M] in
theorem foldlM_composeRest_composes (roles : List (Role M A C)) (target : Target M A C)
    (noParents : ∀ role ∈ roles, role.parents = []) :
    ComposesAttributes naming target (roles.flatMap Role.attributes)
      (roles.foldlM (composeRest naming) target) := by
  induction roles generalizing target with
  | nil =>
    apply ComposesAttributes.of_ok
    · rintro ⟨attr, absent, _⟩
      cases absent
    · intro attr
      rw [flatMap_nil, append_nil]
  | cons role roles ih =>
    rw [foldlM_cons, flatMap_cons]
    apply (composeRest_composes target role (noParents role mem_cons_self)).bind
    intro middle
    exact ih middle (forall_mem_cons.mp noParents).2

end

omit [DecidableEq M] in
theorem composePrivateMethod_attributes (target : Target M A C) (entry : String × Offers M) :
    (composePrivateMethod target entry).attributes = target.attributes := by
  unfold composePrivateMethod
  split
  · rfl
  split
  · rfl
  · split <;> rfl

omit [DecidableEq M] in
theorem composeMethod_attributes {entry : String × Offers M}
    (composed : composeMethod code target entry = .ok next) :
    next.attributes = target.attributes := by
  unfold composeMethod at composed
  split at composed
  · cases composed
    rfl
  split at composed
  · unfold Target.addMethod at composed
    split at composed
    · cases composed
    · split at composed <;> cases composed <;> rfl
  · cases composed
    rfl
  · cases composed
    rfl

theorem composeMethods_attributes (composed : composeMethods code target roles = .ok next) :
    next.attributes = target.attributes := by
  rcases Except.map_eq_ok_iff.mp composed with ⟨middle, walked, rfl⟩
  have privately : ∀ (entries : List (String × Offers M)) (target : Target M A C),
      (entries.foldl composePrivateMethod target).attributes = target.attributes := by
    intro entries
    induction entries with
    | nil => exact fun _ => rfl
    | cons entry entries ih =>
      intro target
      rw [foldl_cons, ih, composePrivateMethod_attributes]
  rw [privately]
  clear composed
  generalize (methInfo code roles).entries = entries at walked
  induction entries generalizing target with
  | nil =>
    cases walked
    rfl
  | cons entry entries ih =>
    rw [foldlM_cons] at walked
    rcases Except.of_bind walked with ⟨step, stepped, rest⟩
    rw [ih rest, composeMethod_attributes stepped]

end RakudoStar.Metamodel
