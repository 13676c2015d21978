import RakudoStar.Metamodel.Choice

/-!
# What the roles offer under a name

The hash of `build_meth_info` holds, under each name, what gathering the methods of that name
gives. A role offers at most one, so any order of the methods comes from one of the roles.
-/

namespace RakudoStar.Metamodel

open Foundation SixModel List

variable {M A C : Type} [DecidableEq M] {code : CodeObjects M} (roles : List (Role M A C))
  (name : String)

/-- The method or submethod of a role under a name. -/
def Role.offer (role : Role M A C) (name : String) : Option M :=
  (role.methodTable.lookup name).or (role.submethodTable.lookup name)

/-- What the roles offer under a name, in their order. -/
def offersOf (roles : List (Role M A C)) (name : String) : List M :=
  roles.filterMap fun role => role.offer name

def privateOffersOf (roles : List (Role M A C)) (name : String) : List M :=
  roles.filterMap fun role => role.privateMethodTable.lookup name

/-- The methods under a name of the hash. -/
def methsUnder (info : MethInfo M) (name : String) : List M :=
  ((info.lookup name).map Offers.meths).getD []

theorem methsUnder_offer (role : String) (info : MethInfo M) (entry : String × M)
    (name : String) : methsUnder (offer code role info entry) name =
      if nameEq name entry.1 then gather code (methsUnder info name) [entry.2]
      else methsUnder info name := by
  rw [methsUnder, offer, FiniteMap.lookup_insert nameEq_laws]
  by_cases same : nameEq name entry.1 = true
  · have equal : name = entry.1 := by simpa [nameEq] using same
    subst equal
    rw [if_pos same, if_pos same]
    cases present : info.lookup entry.1 with
    | none =>
      rw [methsUnder, present]
      rfl
    | some offers =>
      rw [methsUnder, present]
      simp only [Option.map_some, Option.getD_some, Offers.add, gather, foldl_cons, foldl_nil]
      split <;> rfl
  · rw [if_neg same, if_neg same]
    rfl

theorem methsUnder_buildMethInfo (role : String) (table : MethodTable M) (info : MethInfo M)
    (name : String) : methsUnder (buildMethInfo code role table info) name =
      gather code (methsUnder info name) (table.lookup name).toList := by
  rcases table with ⟨entries, distinct⟩
  simp only [buildMethInfo, FiniteMap.lookup]
  induction entries generalizing info with
  | nil => rfl
  | cons entry entries ih =>
    have apart := pairwise_cons.mp distinct
    rw [foldl_cons, ih _ apart.2, methsUnder_offer]
    cases same : nameEq name entry.1 with
    | false => simp [lookupEntry, same]
    | true =>
      have absent : lookupEntry nameEq name entries = none := by
        apply lookupEntry_of_absent
        intro other member
        have equal : name = entry.1 := by simpa [nameEq] using same
        rw [equal]
        have differ := apart.1 other.1 (mem_map_of_mem member)
        rw [Bool.eq_false_iff]
        intro back
        rw [nameEq_laws.symm back] at differ
        cases differ
      rw [absent]
      simp [lookupEntry, same, gather]

theorem methsUnder_methInfo_from (info : MethInfo M) (name : String) : methsUnder (roles.foldl
          (fun info role =>
            buildMethInfo code role.name role.submethodTable
              (buildMethInfo code role.name role.methodTable info)) info) name =
      gather code (methsUnder info name) (offersOf roles name) := by
  induction roles generalizing info with
  | nil => rfl
  | cons role roles ih =>
    rw [foldl_cons, ih, methsUnder_buildMethInfo,
      methsUnder_buildMethInfo, offersOf, offersOf, filterMap_cons]
    rcases role.declaredOnce name with none | none
    · cases offered : role.submethodTable.lookup name <;> simp [Role.offer, none, offered, gather]
    · cases offered : role.methodTable.lookup name <;> simp [Role.offer, none, offered, gather]

theorem methsUnder_methInfo :
    methsUnder (methInfo code roles) name = gather code [] (offersOf roles name) :=
  methsUnder_methInfo_from roles FiniteMap.empty name

theorem methsUnder_privMethInfo : methsUnder (privMethInfo code roles) name =
      gather code [] (privateOffersOf roles name) := by
  have general : ∀ info : MethInfo M,
      methsUnder
          (roles.foldl
            (fun info role => buildMethInfo code role.name role.privateMethodTable info)
            info) name = gather code (methsUnder info name) (privateOffersOf roles name) := by
    induction roles with
    | nil => exact fun info => rfl
    | cons role roles ih =>
      intro info
      rw [foldl_cons, ih, methsUnder_buildMethInfo, privateOffersOf,
        privateOffersOf, filterMap_cons]
      cases role.privateMethodTable.lookup name <;> rfl
  exact general FiniteMap.empty

section
omit [DecidableEq M]

variable {info : MethInfo M}

theorem methsUnder_of_mem {entry : String × Offers M}
    (member : entry ∈ info.entries) : methsUnder info entry.1 = entry.2.meths := by
  rw [methsUnder, info.lookup_of_mem nameEq_laws member]
  rfl

theorem exists_mem_of_methsUnder {name : String} (nonempty : methsUnder info name ≠ []) :
    ∃ entry ∈ info.entries, entry.1 = name ∧ entry.2.meths = methsUnder info name := by
  cases present : info.lookup name with
  | none =>
    rw [methsUnder, present] at nonempty
    exact absurd rfl nonempty
  | some offers =>
    rcases info.mem_of_lookup present with ⟨entry, member, same, rfl⟩
    have equal : name = entry.1 := by simpa [nameEq] using same
    refine ⟨entry, member, equal.symm, ?_⟩
    rw [methsUnder, present]
    rfl

theorem offersOf_perm {roles order : List (Role M A C)} (perm : roles.Perm order)
    (name : String) : (offersOf roles name).Perm (offersOf order name) :=
  perm.filterMap _

theorem offersOf_cons {role : Role M A C} {roles : List (Role M A C)} {name : String} {meth : M}
    (offered : role.offer name = some meth) :
    offersOf (role :: roles) name = meth :: offersOf roles name := by
  simp [offersOf, offered]

/-- Any order of the methods offered under a name comes from one of the roles. -/
theorem exists_order_of_offers (roles : List (Role M A C)) (name : String) {offers : List M}
    (perm : offers.Perm (offersOf roles name)) :
    ∃ order : List (Role M A C), order.Perm roles ∧ offersOf order name = offers := by
  induction offers generalizing roles with
  | nil => exact ⟨roles, List.Perm.refl _, nil_perm.mp perm⟩
  | cons meth offers ih =>
    have member : meth ∈ offersOf roles name := perm.subset mem_cons_self
    rcases mem_filterMap.mp member with ⟨role, inRoles, offered⟩
    rcases append_of_mem inRoles with ⟨before, behind, rfl⟩
    have front : (offersOf (before ++ role :: behind) name).Perm
        (meth :: offersOf (before ++ behind) name) := by
      apply (offersOf_perm (@perm_middle _ role before behind) name).trans
      rw [offersOf_cons offered]
    rcases ih (before ++ behind)
        (perm_cons meth |>.mp (perm.trans front)) with ⟨order, orderPerm, offersEq⟩
    refine ⟨role :: order, (orderPerm.cons role).trans perm_middle.symm, ?_⟩
    rw [offersOf_cons offered, offersEq]

end

end RakudoStar.Metamodel

namespace RakudoStar.Metamodel

open Foundation SixModel

variable {M A C : Type}

section

variable {S V X E : Type} (view : S → String → X) (step : S → String × V → Except E S)
  (effect : X → V → X) (blocked : X → V → Prop)

/-- A step dies when the name is blocked, else it changes that name only. -/
structure ActsByName : Prop where
  dies : ∀ state entry, (∃ error, step state entry = .error error) ↔
    blocked (view state entry.1) entry.2
  changes : ∀ state entry next, step state entry = .ok next → ∀ name,
    view next name =
      if nameEq name entry.1 then effect (view state name) entry.2 else view state name

def afterWalk (entries : List (String × V)) (name : String) (before : X) : X :=
  match lookupEntry nameEq name entries with
  | some value => effect before value
  | none => before

variable {view step effect blocked}

theorem ActsByName.walk (acts : ActsByName view step effect blocked)
    {entries : List (String × V)} (distinct : Distinct nameEq entries) (state : S) :
    ((∃ error, entries.foldlM step state = .error error) ↔
        ∃ entry ∈ entries, blocked (view state entry.1) entry.2) ∧
      ∀ last, entries.foldlM step state = .ok last → ∀ name,
        view last name = afterWalk effect entries name (view state name) := by
  induction entries generalizing state with
  | nil =>
    constructor
    · constructor
      · rintro ⟨error, died⟩
        cases died
      · rintro ⟨entry, absent, _⟩
        cases absent
    · intro last ends name
      cases ends
      rfl
  | cons entry entries ih =>
    have apart := List.pairwise_cons.mp distinct
    have otherNames : ∀ other ∈ entries, nameEq other.1 entry.1 = false :=
      fun other member => apart.1 other.1 (List.mem_map_of_mem member)
    rw [List.foldlM_cons]
    cases stepped : step state entry with
    | error error =>
      have isBlocked := (acts.dies state entry).mp ⟨error, stepped⟩
      constructor
      · constructor
        · intro
          exact ⟨entry, List.mem_cons_self, isBlocked⟩
        · intro
          exact ⟨error, rfl⟩
      · intro last ends
        cases ends
    | ok next =>
      have changed := acts.changes state entry next stepped
      have notBlocked : ¬blocked (view state entry.1) entry.2 := by
        intro isBlocked
        rcases (acts.dies state entry).mpr isBlocked with ⟨error, died⟩
        rw [stepped] at died
        cases died
      rcases ih apart.2 next with ⟨dies, ends⟩
      constructor
      · rw [show (Except.ok next >>= fun state => entries.foldlM step state) =
          entries.foldlM step next from rfl, dies]
        have unchanged : ∀ other ∈ entries, view next other.1 = view state other.1 := by
          intro other member
          rw [changed other.1, if_neg (by rw [otherNames other member]; simp)]
        constructor
        · rintro ⟨other, member, isBlocked⟩
          rw [unchanged other member] at isBlocked
          exact ⟨other, List.mem_cons_of_mem _ member, isBlocked⟩
        rintro ⟨other, member, isBlocked⟩
        rcases List.mem_cons.mp member with rfl | later
        · exact absurd isBlocked notBlocked
        · exact ⟨other, later, by rw [unchanged other later]; exact isBlocked⟩
      intro last end_ name
      rw [ends last end_ name, changed name]
      cases same : nameEq name entry.1 with
      | false => simp [afterWalk, lookupEntry, same]
      | true =>
        have absent : lookupEntry nameEq name entries = none := by
          apply lookupEntry_of_absent
          intro other member
          rw [Bool.eq_false_iff]
          intro equal
          have differ := otherNames other member
          rw [nameEq_laws.trans (nameEq_laws.symm equal) same] at differ
          cases differ
        rw [if_pos rfl, afterWalk, absent]
        simp [afterWalk, lookupEntry, same]

end

/-- What a target has under a name; `none` twice over without private methods. -/
structure Slot (M : Type) where
  method : Option M
  submethod : Option M
  privateMethod : Option (Option M)
  collision : Prop
  privateCollision : Prop

namespace Target

def hasCollision (target : Target M A C) (name : String) (isPrivate : Bool) : Prop :=
  ∃ collision ∈ target.collisions, collision.name = name ∧ collision.isPrivate = isPrivate

def slot (target : Target M A C) (name : String) : Slot M where
  method := target.methods.lookup name
  submethod := target.submethods.lookup name
  privateMethod := target.privateMethods.map fun table => table.lookup name
  collision := target.hasCollision name false
  privateCollision := target.hasCollision name true

theorem hasCollision_addCollision (target : Target M A C) (name wanted : String)
    (roles : List String) (isPrivate wantedPrivate : Bool) :
    (target.addCollision name roles isPrivate).hasCollision wanted wantedPrivate ↔
      target.hasCollision wanted wantedPrivate ∨ (wanted = name ∧ wantedPrivate = isPrivate) := by
  constructor
  · rintro ⟨collision, member, isName, isKind⟩
    rcases List.mem_append.mp member with before | added
    · exact .inl ⟨collision, before, isName, isKind⟩
    · rw [List.mem_singleton.mp added] at isName isKind
      exact .inr ⟨isName.symm, isKind.symm⟩
  · rintro (⟨collision, before, isName, isKind⟩ | ⟨rfl, rfl⟩)
    · exact ⟨collision, List.mem_append_left _ before, isName, isKind⟩
    · exact ⟨_, List.mem_append_right _ List.mem_cons_self, rfl, rfl⟩

end Target

variable [DecidableEq M] (code : CodeObjects M)

namespace Slot

/-- What composing the methods on offer does under their name. -/
def compose (slot : Slot M) (meths : List M) : Slot M :=
  if slot.method.isSome then slot
  else
    match chooseMethod code meths with
    | some (.add meth) =>
      if code.isSubmethod meth then { slot with submethod := some meth }
      else { slot with method := some meth }
    | some .collide => { slot with collision := True }
    | none => slot

/-- A method is chosen, but the target has a submethod of the name. -/
def Blocked (slot : Slot M) (meths : List M) : Prop :=
  slot.method = none ∧ slot.submethod.isSome ∧ ∃ meth, chooseMethod code meths = some (.add meth)

def composePrivate (slot : Slot M) (meths : List M) : Slot M :=
  match slot.privateMethod with
  | some none =>
    match meths with
    | [] => slot
    | [meth] => { slot with privateMethod := some (some meth) }
    | _ => { slot with privateCollision := True }
  | _ => slot

end Slot

variable {code}

omit [DecidableEq M] in
theorem slot_addMethod {target next : Target M A C} {name : String} {meth : M}
    (added : target.addMethod code name meth = .ok next) (wanted : String) : next.slot wanted =
      if nameEq wanted name then
        (if code.isSubmethod meth then { target.slot wanted with submethod := some meth }
          else { target.slot wanted with method := some meth })
      else target.slot wanted := by
  unfold Target.addMethod at added
  split at added
  · cases added
  split at added
  · rename_i isSubmethod
    cases added
    rw [if_pos isSubmethod]
    simp only [Target.slot, FiniteMap.lookup_insert nameEq_laws]
    split <;> rfl
  rename_i isMethod
  cases added
  rw [if_neg isMethod]
  simp only [Target.slot, FiniteMap.lookup_insert nameEq_laws]
  split <;> rfl

omit [DecidableEq M] in
theorem slot_addCollision (target : Target M A C) (name wanted : String)
    (roles : List String) (isPrivate : Bool) :
    (target.addCollision name roles isPrivate).slot wanted = if nameEq wanted name then
        (if isPrivate then { target.slot wanted with privateCollision := True }
          else { target.slot wanted with collision := True })
      else target.slot wanted := by
  have publicly := target.hasCollision_addCollision name wanted roles isPrivate false
  have privately := target.hasCollision_addCollision name wanted roles isPrivate true
  change Slot.mk (target.slot wanted).method (target.slot wanted).submethod
    (target.slot wanted).privateMethod
    ((target.addCollision name roles isPrivate).hasCollision wanted false)
    ((target.addCollision name roles isPrivate).hasCollision wanted true) = _
  rw [publicly, privately]
  by_cases same : nameEq wanted name = true
  · have equal : wanted = name := by simpa [nameEq] using same
    rw [if_pos same]
    cases isPrivate <;> simp [Target.slot, equal]
  have differ : wanted ≠ name := by simpa [nameEq] using same
  rw [if_neg same]
  simp [Target.slot, differ]

omit [DecidableEq M] in
theorem composeMethod_actsByName :
    ActsByName (Target.slot : Target M A C → String → Slot M) (composeMethod code)
      (fun slot offers => slot.compose code offers.meths)
      (fun slot offers => slot.Blocked code offers.meths) where
  dies target entry := by
    unfold composeMethod
    constructor
    · rintro ⟨error, died⟩
      split at died
      · cases died
      rename_i free
      have noMethod : target.methods.lookup entry.1 = none := by simpa using free
      split at died
      · rename_i meth chosen
        unfold Target.addMethod at died
        rw [noMethod] at died
        split at died
        · rename_i taken
          have inSlot : (target.slot entry.1).submethod.isSome := by
            simpa [Target.slot] using taken
          exact ⟨noMethod, inSlot, meth, chosen⟩
        · split at died <;> cases died
      · cases died
      · cases died
    · rintro ⟨noMethod, taken, meth, chosen⟩
      have noMethod' : target.methods.lookup entry.1 = none := noMethod
      have taken' : (target.submethods.lookup entry.1).isSome := taken
      rw [noMethod', if_neg (by simp), chosen]
      simp only [Target.addMethod, taken', Bool.or_true, if_true]
      exact ⟨_, rfl⟩
  changes target entry next composed name := by
    unfold composeMethod at composed
    by_cases present : (target.methods.lookup entry.1).isSome
    · rw [if_pos present] at composed
      cases composed
      by_cases same : nameEq name entry.1 = true
      · have equal : name = entry.1 := by simpa [nameEq] using same
        have inSlot : (target.slot name).method.isSome := by
          rw [equal]
          exact present
        rw [if_pos same, Slot.compose, if_pos inSlot]
      · rw [if_neg same]
    rw [if_neg present] at composed
    by_cases same : nameEq name entry.1 = true
    · have equal : name = entry.1 := by simpa [nameEq] using same
      have notInSlot : ¬(target.slot name).method.isSome := by
        rw [equal]
        exact present
      rw [if_pos same, Slot.compose, if_neg notInSlot]
      rcases chosen : chooseMethod code entry.2.meths with _ | meth | _
      · rw [chosen] at composed
        cases composed
        rfl
      · rw [chosen] at composed
        rw [slot_addMethod composed name, if_pos same]
      rw [chosen] at composed
      cases composed
      rw [slot_addCollision, if_pos same]
      simp
    · rw [if_neg same]
      rcases chosen : chooseMethod code entry.2.meths with _ | meth | _
      · rw [chosen] at composed
        cases composed
        rfl
      · rw [chosen] at composed
        rw [slot_addMethod composed name, if_neg same]
      · rw [chosen] at composed
        cases composed
        rw [slot_addCollision, if_neg same]

omit [DecidableEq M] in
theorem composePrivateMethod_actsByName : ActsByName (Target.slot : Target M A C → String → Slot M)
      (fun target entry => (.ok (composePrivateMethod target entry) : Except Unit _))
      (fun slot offers => slot.composePrivate offers.meths) (fun _ _ => False) where
  dies target entry := by
    constructor
    · rintro ⟨error, died⟩
      cases died
    · intro impossible
      exact impossible.elim
  changes target entry next composed name := by
    cases composed
    unfold composePrivateMethod
    cases tables : target.privateMethods with
    | none =>
      have noTable : (target.slot name).privateMethod = none := by simp [Target.slot, tables]
      unfold Slot.composePrivate
      rw [noTable, ite_self]
    | some table =>
      by_cases same : nameEq name entry.1 = true
      · have equal : name = entry.1 := by simpa [nameEq] using same
        have inSlot : (target.slot name).privateMethod = some (table.lookup entry.1) := by
          simp [Target.slot, tables, equal]
        unfold Slot.composePrivate
        rw [if_pos same, inSlot]
        cases present : table.lookup entry.1 with
        | some meth => simp [present]
        | none =>
          rcases offered : entry.2.meths with _ | ⟨meth, _ | ⟨second, rest⟩⟩
          · simp [present]
          · simp only [present, Option.isSome_none, Bool.false_eq_true, if_false]
            rw [equal]
            simp only [Target.slot, tables, Option.map_some,
              FiniteMap.lookup_insert nameEq_laws, nameEq_laws.refl, if_true]
            rfl
          simp only [present, Option.isSome_none, Bool.false_eq_true, if_false]
          have kept : (target.slot name).privateMethod = some none := by
            rw [inSlot, present]
          rw [slot_addCollision, if_pos same, if_pos rfl, ← kept]
      · rw [if_neg same]
        cases present : table.lookup entry.1 with
        | some meth => simp [present]
        | none =>
          rcases offered : entry.2.meths with _ | ⟨meth, _ | ⟨second, rest⟩⟩
          · simp [present]
          · simp only [present, Option.isSome_none, Bool.false_eq_true, if_false]
            simp only [Target.slot, tables, Option.map_some,
              FiniteMap.lookup_insert nameEq_laws, same]
            rfl
          · simp only [present, Option.isSome_none, Bool.false_eq_true, if_false]
            rw [slot_addCollision, if_neg same]

end RakudoStar.Metamodel
