import RakudoStar.Foundation.FiniteMap

/-!
# Looking up methods

`find_method` and `publish_method_cache` of `MROBasedMethodDispatch.pm`, and
`default_find_method` of `sixmodelobject.c`, which consults what was published before it asks
the metaobject.
-/

namespace RakudoStar.SixModel

open Foundation List

variable {C M : Type}

/-- The test of a hash for the names of methods. -/
def nameEq (name other : String) : Bool := name == other

theorem nameEq_laws : EquivalenceTest nameEq where
  refl := by simp [nameEq]
  symm := by
    intro name other same
    simpa [nameEq] using (of_decide_eq_true same).symm
  trans := by
    intro first second third left right
    simp only [nameEq, beq_iff_eq] at left right ⊢
    exact left.trans right

/-- A hash of the names of methods to code objects, none of which is null. -/
abbrev MethodTable (M : Type) := FiniteMap nameEq M

/-- What the metaobjects answer: linearization, tables, and the fallback. -/
structure Methods (C M : Type) where
  mro : C → List C
  methodTable : C → MethodTable M
  submethodTable : C → MethodTable M
  findMethodFallback : Option (C → String → Option M)

namespace Methods

variable (methods : Methods C M)

/-- The method of the first class that has one under the name. -/
def findInMro (name : String) : List C → Option M
  | [] => none
  | cls :: rest =>
    match (methods.methodTable cls).lookup name with
    | some method => some method
    | none => findInMro name rest

def findMethod (obj : C) (name : String) (noFallback : Bool) : Option M :=
  match methods.findInMro name (methods.mro obj) with
  | some method => some method
  | none =>
    match (methods.submethodTable obj).lookup name with
    | some submethod => some submethod
    | none =>
      if noFallback then none
      else
        match methods.findMethodFallback with
        | some fallback => fallback obj name
        | none => none

/-- The walk over the reversed linearization. -/
def collectMethods (mroReversed : List C) : MethodTable M :=
  mroReversed.foldl (fun cache cls => cache.overlay (methods.methodTable cls).entries)
    FiniteMap.empty

/-- `publish_method_cache`: the hash that it publishes. -/
def publishMethodCache (obj : C) : MethodTable M :=
  (methods.collectMethods (methods.mro obj).reverse).overlay (methods.submethodTable obj).entries

end Methods

/-- What `default_find_method` reads of an STable. -/
structure MethodLookup (M : Type) where
  vtable : Option (List M)
  methodCache : Option (MethodTable M)
  authoritative : Bool

/-- `default_find_method`; a hint is a place in the v-table, and `none` is
`NO_HINT`. -/
def defaultFindMethod (methods : Methods C M) (st : MethodLookup M) (obj : C)
    (name : String) (hint : Option Nat) : Option M :=
  match st.vtable, hint with
  | some vtable, some hint =>
    match vtable[hint]? with
    | some method => some method
    | none => byName
  | _, _ => byName
where
  /-- The lookup by name. -/
  byName : Option M :=
    match st.methodCache with
    | some cache =>
      match cache.lookup name with
      | some method => some method
      | none => if st.authoritative then none else methods.findMethod obj name false
    | none => methods.findMethod obj name false

namespace Methods

variable {methods : Methods C M} {obj : C} {name : String}

theorem lookup_collectMethods (classes : List C) :
    (methods.collectMethods classes.reverse).lookup name = methods.findInMro name classes := by
  induction classes with
  | nil => rfl
  | cons cls classes ih =>
    have step : methods.collectMethods (cls :: classes).reverse =
        (methods.collectMethods classes.reverse).overlay (methods.methodTable cls).entries := by
      rw [collectMethods, reverse_cons, foldl_append]
      rfl
    rw [step, FiniteMap.lookup_overlay nameEq_laws, ih, findInMro]
    cases (methods.methodTable cls).lookup name <;> rfl

theorem lookup_publishMethodCache : (methods.publishMethodCache obj).lookup name =
      ((methods.submethodTable obj).lookup name).or (methods.findInMro name (methods.mro obj)) := by
  rw [publishMethodCache, FiniteMap.lookup_overlay nameEq_laws, lookup_collectMethods]

theorem findInMro_eq_some {classes : List C} {method : M} :
    methods.findInMro name classes = some method ↔
      ∃ before cls behind, classes = before ++ cls :: behind ∧
        (∀ earlier ∈ before, (methods.methodTable earlier).lookup name = none) ∧
        (methods.methodTable cls).lookup name = some method := by
  induction classes with
  | nil =>
    constructor
    · nofun
    · rintro ⟨before, cls, behind, split, _⟩
      cases before <;> cases split
  | cons first classes ih =>
    rw [findInMro]
    cases here : (methods.methodTable first).lookup name with
    | some other =>
      constructor
      · rintro ⟨⟩
        exact ⟨[], first, classes, rfl, by simp, here⟩
      rintro ⟨before, cls, behind, split, absent, present⟩
      cases before with
      | nil =>
        cases split
        rw [here] at present
        exact present
      | cons earlier before =>
        cases split
        rw [absent first mem_cons_self] at here
        cases here
    | none =>
      rw [ih]
      constructor
      · rintro ⟨before, cls, behind, rfl, absent, present⟩
        refine ⟨first :: before, cls, behind, rfl, ?_, present⟩
        intro earlier member
        rcases mem_cons.mp member with rfl | later
        · exact here
        · exact absent earlier later
      rintro ⟨before, cls, behind, split, absent, present⟩
      cases before with
      | nil =>
        cases split
        rw [here] at present
        cases present
      | cons earlier before =>
        cases split
        refine ⟨before, cls, behind, rfl, ?_, present⟩
        intro other member
        exact absent other (mem_cons_of_mem _ member)

/-- A submethod's name is in no method table, unless for the submethod itself. -/
def SubmethodsApart (methods : Methods C M) (obj : C) (name : String) : Prop :=
  ∀ submethod, (methods.submethodTable obj).lookup name = some submethod →
    ∀ before cls behind method, methods.mro obj = before ++ cls :: behind →
      (∀ earlier ∈ before, (methods.methodTable earlier).lookup name = none) →
      (methods.methodTable cls).lookup name = some method → method = submethod

/-- The published cache and the slow lookup agree on a name if and only if no
method along the linearization hides behind a submethod. -/
theorem publishMethodCache_agrees_iff (methods : Methods C M) (obj : C) (name : String) :
    (methods.publishMethodCache obj).lookup name = methods.findMethod obj name true ↔
      methods.SubmethodsApart obj name := by
  rw [lookup_publishMethodCache, findMethod]
  cases sub : (methods.submethodTable obj).lookup name with
  | none =>
    constructor
    · intro _ submethod present
      rw [sub] at present
      cases present
    · intro
      cases methods.findInMro name (methods.mro obj) <;> rfl
  | some submethod =>
    cases found : methods.findInMro name (methods.mro obj) with
    | none =>
      constructor
      · intro _ other _ before cls behind method split absent present
        rw [findInMro_eq_some.mpr ⟨before, cls, behind, split, absent, present⟩] at found
        cases found
      · intro
        rfl
    | some method =>
      constructor
      · intro agree other isSubmethod before cls behind method' split absent present
        rw [findInMro_eq_some.mpr ⟨before, cls, behind, split, absent, present⟩] at found
        rw [sub] at isSubmethod
        cases isSubmethod
        cases found
        exact (Option.some.inj agree).symm
      intro apart
      rcases findInMro_eq_some.mp found with ⟨before, cls, behind, split, absent, present⟩
      rw [apart submethod sub before cls behind method split absent present]
      rfl

/-- A class `1` with a submethod `BUILD`, below a class `0` with a method of
that name. -/
def overridden : Methods Nat String where
  mro := fun cls => if cls = 1 then [1, 0] else [0]
  methodTable := fun cls =>
    if cls = 0 then FiniteMap.empty.insert "BUILD" "method" else FiniteMap.empty
  submethodTable := fun cls =>
    if cls = 1 then FiniteMap.empty.insert "BUILD" "submethod" else FiniteMap.empty
  findMethodFallback := none

theorem publishMethodCache_ne_overridden :
    (overridden.publishMethodCache 1).lookup "BUILD" = some "submethod" ∧
      overridden.findMethod 1 "BUILD" true = some "method" ∧
      (overridden.publishMethodCache 1).lookup "BUILD" ≠ overridden.findMethod 1 "BUILD" true := by
  decide

end Methods

end RakudoStar.SixModel
