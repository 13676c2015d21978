import RakudoStar.Metamodel.Applying

/-!
# The order of the roles

When what `RoleToRoleApplier.apply` gives the target does not depend on the order
in which the roles are listed.
-/

namespace RakudoStar.Metamodel

open Foundation SixModel

variable {M A C : Type} [DecidableEq M]

section

variable (code : CodeObjects M) (naming : Naming A C)

/-- The method or submethod in a slot. -/
def Slot.implementation (slot : Slot M) : Option M :=
  slot.method.or slot.submethod

/-- Nothing in both, or one implementation or two stubs. -/
inductive SameMethods : Option M → Option M → Prop
  | nothing : SameMethods none none
  | same {meth other : M} : SameImplementation code meth other →
      SameMethods (some meth) (some other)

/-- Two slots hold the same methods and collisions. -/
structure SameSlot (slot other : Slot M) : Prop where
  methods : SameMethods code slot.implementation other.implementation
  privates : SameMethods code (slot.privateMethod.bind id) (other.privateMethod.bind id)
  collision : slot.collision ↔ other.collision
  privateCollision : slot.privateCollision ↔ other.privateCollision

/-- Two compositions of the same roles come to the same. -/
structure SameComposition (roles : List (Role M A C))
    (result other : Composing M A C (Target M A C)) : Prop where
  adding : DiesAddingMethod result ↔ DiesAddingMethod other
  slots : ¬DiesAddingMethod result → ¬DiesAddingMethod other → ∀ name,
    SameSlot code ((targetAfter result).slot name) ((targetAfter other).slot name)
  conflicts : (∀ role ∈ roles, role.parents = []) → (DiesOfConflict result ↔ DiesOfConflict other)

/-- Applying the roles gives the same in all orders. -/
def OrderIndependent [DecidableEq A] [DecidableEq C]
    (target : Target M A C) (roles : List (Role M A C)) : Prop :=
  ∀ first second : List (Role M A C), first.Perm roles → second.Perm roles →
    SameComposition code roles (apply code naming target first) (apply code naming target second)

/-- No order adds all methods: a submethod of the target is in the way. -/
def AlwaysBlocked (target : Target M A C) (roles : List (Role M A C)) : Prop :=
  ∀ order : List (Role M A C), order.Perm roles → ∃ name,
    target.methods.lookup name = none ∧ (target.submethods.lookup name).isSome ∧
      ∃ meth, choice code (offersOf order name) = some (.add meth)

/-- Under no other name does the sole implementation come in pieces. -/
def Whole (target : Target M A C) (roles : List (Role M A C)) : Prop :=
  ∀ name, target.methods.lookup name = none → ¬Torn code (offersOf roles name)

end

variable {code : CodeObjects M} {naming : Naming A C}

theorem SameMethods.refl (found : Option M) : SameMethods code found found := by
  cases found with
  | none => exact .nothing
  | some meth => exact .same (.inl (sameMethod_refl meth))

namespace Slot

section
omit [DecidableEq M]

theorem compose_of_add {slot : Slot M} {meths : List M} {meth : M} (noMethod : slot.method = none)
    (chosen : chooseMethod code meths = some (.add meth)) :
    (slot.compose code meths).implementation = some meth ∧
      ((slot.compose code meths).collision ↔ slot.collision) := by
  unfold compose
  rw [noMethod, if_neg (by simp), chosen]
  dsimp only
  split
  · exact ⟨by simp [implementation], Iff.rfl⟩
  · exact ⟨by simp [implementation], Iff.rfl⟩

theorem compose_of_collide {slot : Slot M} {meths : List M} (noMethod : slot.method = none)
    (chosen : chooseMethod code meths = some .collide) :
    (slot.compose code meths).implementation = slot.implementation ∧
      (slot.compose code meths).collision := by
  unfold compose
  rw [noMethod, if_neg (by simp), chosen]
  exact ⟨by simp [implementation, noMethod], trivial⟩

theorem compose_of_none {slot : Slot M} {meths : List M}
    (chosen : chooseMethod code meths = none) : slot.compose code meths = slot := by
  unfold compose
  rw [chosen]
  split <;> rfl

theorem compose_of_method {slot : Slot M} {meths : List M} (present : slot.method.isSome) :
    slot.compose code meths = slot := by
  rw [compose, if_pos present]

theorem compose_privates (slot : Slot M) (meths : List M) :
    (slot.compose code meths).privateMethod = slot.privateMethod ∧
      (slot.compose code meths).privateCollision = slot.privateCollision := by
  unfold compose
  split
  · exact ⟨rfl, rfl⟩
  split
  · split <;> exact ⟨rfl, rfl⟩
  · exact ⟨rfl, rfl⟩
  · exact ⟨rfl, rfl⟩

theorem composePrivate_publics (slot : Slot M) (meths : List M) :
    (slot.composePrivate meths).implementation = slot.implementation ∧
      (slot.composePrivate meths).collision = slot.collision := by
  unfold composePrivate
  split
  · split <;> exact ⟨rfl, rfl⟩
  · exact ⟨rfl, rfl⟩

end

theorem composePrivate_perm {slot other : Slot M} {offered otherOffered : List M}
    (perm : offered.Perm otherOffered) (sameMethod : slot.privateMethod = other.privateMethod)
    (sameCollision : slot.privateCollision = other.privateCollision) : SameMethods code
        ((slot.composePrivate (gather code [] offered)).privateMethod.bind id)
        ((other.composePrivate (gather code [] otherOffered)).privateMethod.bind id) ∧
      ((slot.composePrivate (gather code [] offered)).privateCollision ↔
        (other.composePrivate (gather code [] otherOffered)).privateCollision) := by
  unfold composePrivate
  rw [← sameMethod]
  split
  · rename_i free
    rcases gather_perm_cases perm with ⟨none, otherNone⟩ | ⟨meth, otherMeth, one, otherOne, same⟩ |
      ⟨several, otherSeveral⟩
    · rw [none, otherNone]
      rw [← sameMethod, sameCollision]
      exact ⟨.refl _, Iff.rfl⟩
    · rw [one, otherOne]
      rw [sameCollision]
      exact ⟨.same (.inl same), Iff.rfl⟩
    rcases gathered : gather code [] offered with _ | ⟨first, _ | ⟨second, rest⟩⟩
    · simp [gathered] at several
    · simp [gathered] at several
    rcases otherGathered : gather code [] otherOffered with _ | ⟨otherFirst, _ | ⟨_, _⟩⟩
    · simp [otherGathered] at otherSeveral
    · simp [otherGathered] at otherSeveral
    · exact ⟨.refl _, Iff.rfl⟩
  · rw [← sameMethod, sameCollision]
    exact ⟨.refl _, Iff.rfl⟩

end Slot

theorem finalSlot_perm {target : Target M A C} {first second : List (Role M A C)} {name : String}
    (perm : first.Perm second) (sameChoice : target.methods.lookup name = none →
      SameChoice code (choice code (offersOf first name)) (choice code (offersOf second name))) :
    SameSlot code (finalSlot code target first name) (finalSlot code target second name) := by
  have privateOffers : (privateOffersOf first name).Perm (privateOffersOf second name) :=
    perm.filterMap _
  rcases @Slot.compose_privates _ code (target.slot name) (gather code [] (offersOf first name))
    with ⟨firstMethod, firstCollision⟩
  rcases @Slot.compose_privates _ code (target.slot name) (gather code [] (offersOf second name))
    with ⟨secondMethod, secondCollision⟩
  rcases @Slot.composePrivate_perm _ _ code _ _ _ _ privateOffers
      (firstMethod.trans secondMethod.symm) (firstCollision.trans secondCollision.symm) with
    ⟨samePrivates, samePrivateCollision⟩
  have publicly : SameMethods code
        ((target.slot name).compose code (gather code [] (offersOf first name))).implementation
        ((target.slot name).compose code (gather code [] (offersOf second name))).implementation ∧
      (((target.slot name).compose code (gather code [] (offersOf first name))).collision ↔
        ((target.slot name).compose code (gather code [] (offersOf second name))).collision) := by
    cases present : (target.slot name).method with
    | some meth =>
      have inSlot : (target.slot name).method.isSome := by rw [present]; rfl
      rw [Slot.compose_of_method inSlot, Slot.compose_of_method inSlot]
      exact ⟨.refl _, Iff.rfl⟩
    | none =>
      have same := sameChoice present
      generalize chosen : choice code (offersOf first name) = one at same
      generalize otherChosen : choice code (offersOf second name) = two at same
      cases same with
      | nothing =>
        rw [Slot.compose_of_none chosen, Slot.compose_of_none otherChosen]
        exact ⟨.refl _, Iff.rfl⟩
      | collide =>
        have left := Slot.compose_of_collide present chosen
        have right := Slot.compose_of_collide present otherChosen
        rw [left.1, right.1]
        exact ⟨.refl _, ⟨fun _ => right.2, fun _ => left.2⟩⟩
      | @add meth other sameImpl =>
        have left := Slot.compose_of_add present chosen
        have right := Slot.compose_of_add present otherChosen
        rw [left.1, right.1, left.2, right.2]
        exact ⟨.same sameImpl, Iff.rfl⟩
  unfold finalSlot
  refine ⟨?_, samePrivates, ?_, samePrivateCollision⟩
  · rw [(Slot.composePrivate_publics _ _).1, (Slot.composePrivate_publics _ _).1]
    exact publicly.1
  · rw [(Slot.composePrivate_publics _ _).2, (Slot.composePrivate_publics _ _).2]
    exact publicly.2

section

variable [DecidableEq A] [DecidableEq C] {target : Target M A C} {roles : List (Role M A C)}
  {first second : List (Role M A C)}

theorem SameChoice.adds {one two : Option (Decision M)} (same : SameChoice code one two) :
    (∃ meth, one = some (.add meth)) ↔ ∃ meth, two = some (.add meth) := by
  cases same with
  | nothing => exact Iff.rfl
  | collide =>
    constructor
    · rintro ⟨meth, chosen⟩
      cases chosen
    · rintro ⟨meth, chosen⟩
      cases chosen
  | @add meth other => exact ⟨fun _ => ⟨other, rfl⟩, fun _ => ⟨meth, rfl⟩⟩

omit [DecidableEq A] [DecidableEq C] in
theorem Whole.sameChoice (whole : Whole code target roles)
    (firstPerm : first.Perm roles) (secondPerm : second.Perm roles) {name : String}
    (noMethod : target.methods.lookup name = none) :
    SameChoice code (choice code (offersOf first name)) (choice code (offersOf second name)) := by
  have perm := firstPerm.trans secondPerm.symm
  apply choice_perm (offersOf_perm perm name)
  · intro torn
    exact whole name noMethod (torn.perm (offersOf_perm firstPerm name))
  · intro torn
    exact whole name noMethod (torn.perm (offersOf_perm secondPerm name))

/-- What dies of a conflict does not depend on the order of parentless roles. -/
theorem apply_conflicts_perm (perm : first.Perm second)
    (noParents : ∀ role ∈ first, role.parents = [])
    (adding : DiesAddingMethod (apply code naming target first) ↔
      DiesAddingMethod (apply code naming target second)) :
    DiesOfConflict (apply code naming target first) ↔
      DiesOfConflict (apply code naming target second) := by
  have conflictIff : ∀ order : List (Role M A C), (∀ role ∈ order, role.parents = []) →
      ¬DiesAddingMethod (apply code naming target order) →
      (DiesOfConflict (apply code naming target order) ↔
        Conflicts naming target.attributes (order.flatMap Role.attributes)) := by
    intro order without alive
    unfold apply at alive ⊢
    cases composed : composeMethods code target order with
    | error error =>
      rcases composeMethods_error composed with ⟨package, name, isMethod⟩
      rw [composed] at alive
      exact absurd ⟨package, name, error.2, by rw [← isMethod]; rfl⟩ alive
    | ok next =>
      have rest := (@foldlM_composeRest_composes M A C naming _ _ order next without).conflicts
      rw [composeMethods_attributes composed] at rest
      exact rest
  have dead : ∀ order : List (Role M A C), DiesAddingMethod (apply code naming target order) →
      ¬DiesOfConflict (apply code naming target order) := by
    rintro order ⟨package, name, after, died⟩ ⟨attr, after', conflict⟩
    rw [died] at conflict
    cases conflict
  by_cases dies : DiesAddingMethod (apply code naming target first)
  · exact ⟨fun conflict => absurd conflict (dead first dies),
      fun conflict => absurd conflict (dead second (adding.mp dies))⟩
  have secondParents : ∀ role ∈ second, role.parents = [] :=
    fun role member => noParents role (perm.mem_iff.mpr member)
  rw [conflictIff first noParents dies,
    conflictIff second secondParents (fun again => dies (adding.mpr again))]
  have attrs : (first.flatMap Role.attributes).Perm (second.flatMap Role.attributes) :=
    perm.flatMap_right _
  simp only [Conflicts, attrs.mem_iff]

/-- Applying the roles gives the same in all orders if and only if the sole
implementation under a name never comes in pieces, or no order adds all methods. -/
theorem apply_orderIndependent_iff (code : CodeObjects M) (naming : Naming A C)
    (target : Target M A C) (roles : List (Role M A C)) :
    OrderIndependent code naming target roles ↔
      Whole code target roles ∨ AlwaysBlocked code target roles := by
  constructor
  · intro independent
    by_contra neither
    have torn : ∃ name, target.methods.lookup name = none ∧ Torn code (offersOf roles name) := by
      by_contra none
      apply neither
      left
      intro name noMethod isTorn
      exact none ⟨name, noMethod, isTorn⟩
    have unblocked : ∃ order : List (Role M A C), order.Perm roles ∧
        ¬DiesAddingMethod (apply code naming target order) := by
      by_contra none
      apply neither
      right
      intro order perm
      by_contra free
      exact none ⟨order, perm, fun died => free ((apply_spec target order).1.mp died)⟩
    rcases torn with ⟨name, noMethod, isTorn⟩
    rcases unblocked with ⟨order, orderPerm, alive⟩
    rcases exists_perms_of_torn isTorn with ⟨one, two, onePerm, twoPerm, ⟨meth, adds⟩, collides⟩
    rcases exists_order_of_offers roles name onePerm with ⟨first, firstPerm, rfl⟩
    rcases exists_order_of_offers roles name twoPerm with ⟨second, secondPerm, rfl⟩
    have firstAlive : ¬DiesAddingMethod (apply code naming target first) :=
      fun died => alive ((independent first order firstPerm orderPerm).adding.mp died)
    have secondAlive : ¬DiesAddingMethod (apply code naming target second) :=
      fun died => alive ((independent second order secondPerm orderPerm).adding.mp died)
    have noSubmethod : target.submethods.lookup name = none := by
      by_contra taken
      apply firstAlive
      apply (apply_spec target first).1.mpr
      exact ⟨name, noMethod, Option.isSome_iff_ne_none.mpr taken, meth, adds⟩
    have same := (independent first second firstPerm secondPerm).slots firstAlive secondAlive name
    rw [(apply_spec target first).2 firstAlive, (apply_spec target second).2 secondAlive] at same
    -- One order leaves the method, the other leaves the slot empty.
    have added := (@Slot.compose_of_add M code (target.slot name) _ _ noMethod adds).1
    have left := (@Slot.compose_of_collide M code (target.slot name) _ noMethod collides).1
    have empty : (target.slot name).implementation = none := by
      have noMethod' : (target.slot name).method = none := noMethod
      have noSubmethod' : (target.slot name).submethod = none := noSubmethod
      rw [Slot.implementation, noMethod', noSubmethod']
      rfl
    have methods := same.methods
    unfold finalSlot at methods
    rw [(Slot.composePrivate_publics _ _).1, (Slot.composePrivate_publics _ _).1, added, left,
      empty] at methods
    cases methods
  · rintro (whole | blocked)
    · intro first second firstPerm secondPerm
      have perm := firstPerm.trans secondPerm.symm
      have adding : DiesAddingMethod (apply code naming target first) ↔
          DiesAddingMethod (apply code naming target second) := by
        rw [(apply_spec target first).1, (apply_spec target second).1]
        apply exists_congr
        intro name
        apply and_congr_right
        intro noMethod
        apply and_congr_right
        intro
        exact (whole.sameChoice firstPerm secondPerm noMethod).adds
      refine ⟨adding, ?_, ?_⟩
      · intro firstAlive secondAlive name
        rw [(apply_spec target first).2 firstAlive, (apply_spec target second).2 secondAlive]
        exact finalSlot_perm perm (whole.sameChoice firstPerm secondPerm)
      intro noParents
      apply apply_conflicts_perm perm _ adding
      intro role member
      exact noParents role (firstPerm.mem_iff.mp member)
    · have dies : ∀ order : List (Role M A C), order.Perm roles →
          DiesAddingMethod (apply code naming target order) :=
        fun order perm => (apply_spec target order).1.mpr (blocked order perm)
      intro first second firstPerm secondPerm
      have adding : DiesAddingMethod (apply code naming target first) ↔
          DiesAddingMethod (apply code naming target second) :=
        ⟨fun _ => dies second secondPerm, fun _ => dies first firstPerm⟩
      refine ⟨adding, ?_, ?_⟩
      · intro alive
        exact absurd (dies first firstPerm) alive
      intro noParents
      apply apply_conflicts_perm (firstPerm.trans secondPerm.symm) _ adding
      intro role member
      exact noParents role (firstPerm.mem_iff.mp member)

end

/-- Code objects `0` and `1`, the second of which is a stub. -/
def stubbedCode : CodeObjects Nat where
  id := some
  yada := fun meth => meth == 1
  isSubmethod := fun _ => false
  yada_of_id := by
    intro meth other address first second
    cases first
    cases second
    rfl

def plainNaming : Naming Nat Nat := ⟨toString, toString⟩

def roleWith (name : String) (meth : Nat) : Role Nat Nat Nat where
  name := name
  methodTable := FiniteMap.empty.insert "m" meth
  submethodTable := FiniteMap.empty
  privateMethodTable := FiniteMap.empty
  attributes := []
  multiMethodsToIncorporate := []
  parents := []
  declaredOnce := fun _ => .inr rfl

def emptyTarget : Target Nat Nat Nat where
  obj := 0
  name := "T"
  composed := false
  methods := FiniteMap.empty
  submethods := FiniteMap.empty
  privateMethods := some FiniteMap.empty
  collisions := []
  attributes := []
  multiMethods := []
  parents := []

theorem not_orderIndependent_stubbed : ¬OrderIndependent stubbedCode plainNaming emptyTarget
      [roleWith "A" 0, roleWith "B" 0, roleWith "C" 1] := by
  intro independent
  have alive : ∀ result : Composing Nat Nat Nat (Target Nat Nat Nat), result.isOk = true →
      ¬DiesAddingMethod result := by
    rintro result returns ⟨package, name, after, rfl⟩
    cases returns
  have slots := (independent [roleWith "A" 0, roleWith "B" 0, roleWith "C" 1]
    [roleWith "A" 0, roleWith "C" 1, roleWith "B" 0] (List.Perm.refl _)
    ((List.Perm.swap _ _ _).cons _)).slots (alive _ (by decide)) (alive _ (by decide)) "m"
  have together : (targetAfter (apply stubbedCode plainNaming emptyTarget
      [roleWith "A" 0, roleWith "B" 0, roleWith "C" 1])).collisions = [] := by
    decide
  have between : (targetAfter (apply stubbedCode plainNaming emptyTarget
      [roleWith "A" 0, roleWith "C" 1, roleWith "B" 0])).collisions =
        [⟨"m", ["A", "C", "B"], false⟩] := by
    decide
  rcases slots.collision.mpr ⟨⟨"m", ["A", "C", "B"], false⟩, by rw [between]; simp, rfl, rfl⟩ with
    ⟨collision, member, _⟩
  rw [together] at member
  cases member

end RakudoStar.Metamodel
