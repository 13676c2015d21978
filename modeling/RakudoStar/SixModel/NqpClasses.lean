import RakudoStar.SixModel.MethodCache
import RakudoStar.SixModel.Recomputed
import Mathlib.Logic.Function.Basic

/-!
# The life of NQP's classes

The operations of `NQPClassHOW.pm` on a family of classes. Composing a class publishes its
linearization and the methods found along it; what classes above it get later is not
published again.
-/

namespace RakudoStar.SixModel

open Foundation List

variable {C M : Type} [DecidableEq C]

/-- What a metaobject asks of types and of code objects. -/
structure Objects (C M : Type) where
  shown : C → String
  isDispatcher : M → Bool
  deriveDispatcher : M → M → M

/-- A class: the state of its metaobject, and what it has published. -/
structure NqpClass (C M : Type) where
  name : String
  methods : MethodTable M
  multiMethodsToIncorporate : List (String × M)
  parents : List C
  defaultParent : C
  composed : Bool
  mro : List C
  typeCheckCache : Option (List C)
  published : MethodLookup M

def NqpClass.newType (name : String) (defaultParent : C) : NqpClass C M :=
  ⟨name, FiniteMap.empty, [], [], defaultParent, false, [], none, ⟨none, none, false⟩⟩

namespace NqpClass

/-- `add_method`; there is no code in a null method. -/
def addMethod (cls : NqpClass C M) (name : String) (code : Option M) :
    Except String (NqpClass C M) :=
  if (cls.methods.lookup name).isSome then
    .error ("This class already has a method named " ++ name)
  else
    match code with
    | none => .error ("Cannot add a null method '" ++ name ++ "' to class '" ++ cls.name ++ "'")
    | some code =>
      .ok { cls with
        methods := cls.methods.insert name code
        published := { cls.published with authoritative := false } }

def addMultiMethod (cls : NqpClass C M) (name : String) (code : M) : NqpClass C M :=
  { cls with
    multiMethodsToIncorporate := cls.multiMethodsToIncorporate ++ [(name, code)]
    published := { cls.published with authoritative := false } }

def addParent (objects : Objects C M) (obj : C) (cls : NqpClass C M) (parent : C) :
    Except String (NqpClass C M) :=
  if cls.composed then
    .error "NQPClassHOW does not support adding parents after being composed."
  else if obj = parent then
    .error ("Class '" ++ cls.name ++ "' cannot inherit from itself.")
  else if cls.parents.contains parent then
    .error ("Already have " ++ objects.shown parent ++ " as a parent class.")
  else
    .ok { cls with parents := cls.parents ++ [parent] }

/-- The default parent that `compose` adds. -/
def addDefaultParent (objects : Objects C M) (obj : C) (cls : NqpClass C M) :
    Except String (NqpClass C M) :=
  if cls.parents.isEmpty && cls.name ≠ "NQPMu" then
    cls.addParent objects obj cls.defaultParent
  else
    .ok cls

end NqpClass

/-- The classes, by their type objects. -/
abbrev NqpClasses (C M : Type) := C → NqpClass C M

namespace NqpClasses

/-- As `default_find_method` asks them; `NQPClassHOW` knows no submethods. -/
def metaobjects (classes : NqpClasses C M) : Methods C M where
  mro := fun obj => (classes obj).mro
  methodTable := fun obj => (classes obj).methods
  submethodTable := fun _ => FiniteMap.empty
  findMethodFallback := none

def findMethod (classes : NqpClasses C M) (obj : C) (name : String) : Option M :=
  classes.metaobjects.findInMro name (classes obj).mro

/-- `find_method` of an object of the class, by name. -/
def lookup (classes : NqpClasses C M) (obj : C) (name : String) : Option M :=
  defaultFindMethod classes.metaobjects (classes obj).published obj name none

/-- `default_type_check`, as a type wants it whose metaobject sets no flags. -/
def typeCheck (classes : NqpClasses C M) (toCheck wanted : C) : Except String Bool :=
  match (classes toCheck).typeCheckCache with
  | some cache => .ok (cache.contains wanted)
  | none => .error "No type check cache and no type_check method in meta-object"

/-- `incorporate_multi_candidates`; if it dies, also the methods that it leaves. -/
def incorporateMultiCandidates (objects : Objects C M) (classes : NqpClasses C M)
    (mro : List C) (methods : MethodTable M) :
    List (String × M) → Except (String × MethodTable M) (MethodTable M)
  | [] => .ok methods
  | (name, code) :: todo =>
    match methods.lookup name with
    | some dispatcher =>
      -- The dispatcher gets the candidate; the table stays.
      if objects.isDispatcher dispatcher then
        incorporateMultiCandidates objects classes mro methods todo
      else
        .error ("Cannot have a multi candidate for " ++ name ++
          " when an only method is also in the class", methods)
    | none =>
      match classes.metaobjects.findInMro name mro.tail with
      | some dispatcher =>
        if objects.isDispatcher dispatcher then
          incorporateMultiCandidates objects classes mro
            (methods.insert name (objects.deriveDispatcher dispatcher code)) todo
        else
          .error ("Could not find a proto for multi " ++ name ++
            " (it may exist, but an only is hiding it if so)", methods)
      | none =>
        .error ("Could not find a proto for multi " ++ name ++
          ", and proto generation is NYI", methods)

/-- `publish_type_cache` and `publish_method_cache`. -/
def publish (classes : NqpClasses C M) (obj : C) : NqpClasses C M :=
  Function.update classes obj { classes obj with
    typeCheckCache := some (classes obj).mro
    published := { (classes obj).published with
      methodCache := some (classes.metaobjects.collectMethods (classes obj).mro.reverse)
      authoritative := true } }

/-- No class inherits from itself, so that the recursion of `compute_c3_mro` ends. -/
abbrev Acyclic (classes : NqpClasses C M) : Prop :=
  WellFounded fun parent child => parent ∈ (classes child).parents

/-- `compose` of a class that has its parents: the classes after it, and what it dies of. -/
def compose (objects : Objects C M) (classes : NqpClasses C M) (acyclic : classes.Acyclic)
    (obj : C) : Option String × NqpClasses C M :=
  match if (classes obj).composed then .ok (classes obj).mro else computeC3Mro acyclic obj with
  | .error message => (some message, classes)
  | .ok mro =>
    match incorporateMultiCandidates objects classes mro (classes obj).methods
      (classes obj).multiMethodsToIncorporate with
    | .error (message, methods) =>
      (some message, Function.update classes obj
        { classes obj with mro := mro, composed := true, methods := methods })
    | .ok methods =>
      (none, publish (Function.update classes obj
        { classes obj with mro := mro, composed := true, methods := methods }) obj)

end NqpClasses

/-- What is declared in the body of a class. -/
inductive Declaration (C M : Type)
  | addMethod (name : String) (code : Option M)
  | addMultiMethod (name : String) (code : M)
  | addParent (parent : C)
  | setDefaultParent (parent : C)

/-- A declaration, in the class or on its own. -/
def NqpClass.declare (objects : Objects C M) (obj : C) (cls : NqpClass C M) :
    Declaration C M → Except String (NqpClass C M)
  | .addMethod name code => cls.addMethod name code
  | .addMultiMethod name code => .ok (cls.addMultiMethod name code)
  | .addParent parent => cls.addParent objects obj parent
  | .setDefaultParent parent => .ok { cls with defaultParent := parent }

/-- A call of a metaobject, for one of the classes. -/
inductive MetaCall (C M : Type)
  | declare (obj : C) (declaration : Declaration C M)
  | compose (obj : C)

namespace NqpClasses

/-- A call that returns, or dies with a message; in a hierarchy with a cycle it does neither. -/
inductive Step (objects : Objects C M) :
    NqpClasses C M → MetaCall C M → Option String → NqpClasses C M → Prop
  | declared {classes obj declaration cls}
      (declares : (classes obj).declare objects obj declaration = .ok cls) :
      Step objects classes (.declare obj declaration) none (Function.update classes obj cls)
  | composed {classes obj cls} (adds : (classes obj).addDefaultParent objects obj = .ok cls)
      (acyclic : Acyclic (Function.update classes obj cls)) :
      Step objects classes (.compose obj)
        (compose objects (Function.update classes obj cls) acyclic obj).1
        (compose objects (Function.update classes obj cls) acyclic obj).2

/-- Calls one after the other, whether they return or die. -/
inductive Run (objects : Objects C M) (classes : NqpClasses C M) :
    List (MetaCall C M) → NqpClasses C M → Prop
  | start : Run objects classes [] classes
  | further {calls middle call dies after} (run : Run objects classes calls middle)
      (step : Step objects middle call dies after) : Run objects classes (calls ++ [call]) after

end NqpClasses

/-- The cache is authoritative until the class gets a method or a candidate. -/
structure NqpClass.Keeps (published after : NqpClass C M) : Prop where
  mro : after.mro = published.mro
  methodCache : after.published.methodCache = published.published.methodCache
  typeCheckCache : after.typeCheckCache = published.typeCheckCache
  grows : published.methods.card + published.multiMethodsToIncorporate.length ≤
    after.methods.card + after.multiMethodsToIncorporate.length
  authoritative : after.published.authoritative = true ↔ after.methods = published.methods ∧
    after.multiMethodsToIncorporate = published.multiMethodsToIncorporate

omit [DecidableEq C] in
theorem card_insert_of_absent {methods : MethodTable M} {name : String} (code : M)
    (absent : methods.lookup name = none) :
    (methods.insert name code).card = methods.card + 1 := by
  have apart : ∀ entry ∈ methods.entries, nameEq name entry.1 = false := by
    intro entry member
    have missing := find?_eq_none.mp (Option.map_eq_none_iff.mp absent) entry member
    simpa using missing
  rw [FiniteMap.card, FiniteMap.entries_insert, insertEntry_of_absent _ apart, length_append]
  rfl

theorem NqpClass.addParent_eq_ok {objects : Objects C M} {obj parent : C}
    {cls after : NqpClass C M} (adds : cls.addParent objects obj parent = .ok after) :
    (cls.parents.Nodup → (cls.parents ++ [parent]).Nodup) ∧
      after = { cls with parents := cls.parents ++ [parent] } := by
  rw [addParent] at adds
  split at adds
  · cases adds
  split at adds
  · cases adds
  split at adds <;> cases adds
  rename_i fresh
  rw [contains_iff_mem] at fresh
  exact ⟨fun distinct => by simpa using distinct.concat fresh, rfl⟩

theorem NqpClass.Keeps.declare {objects : Objects C M} {obj : C}
    {published cls after : NqpClass C M} {declaration : Declaration C M}
    (keeps : Keeps published cls) (declares : cls.declare objects obj declaration = .ok after) :
    Keeps published after := by
  have grows := keeps.grows
  cases declaration with
  | addMethod name code =>
    simp only [NqpClass.declare, NqpClass.addMethod] at declares
    split at declares
    · cases declares
    rename_i notThere
    cases code with
    | none => cases declares
    | some code =>
      cases declares
      have more := card_insert_of_absent code (by simpa using notThere)
      refine { keeps with grows := ?_, authoritative := ⟨nofun, fun same => ?_⟩ }
      · exact grows.trans (by simp only; omega)
      · simp only [← same.1, ← same.2, more] at grows
        omega
  | addMultiMethod name code =>
    cases declares
    refine { keeps with grows := ?_, authoritative := ⟨nofun, fun same => ?_⟩ }
    · exact grows.trans (by simp [addMultiMethod])
    · simp [← same.1, ← same.2, addMultiMethod] at grows
  | addParent parent =>
    rcases addParent_eq_ok declares with ⟨-, rfl⟩
    exact { keeps with }
  | setDefaultParent parent =>
    cases declares
    exact { keeps with }

theorem NqpClass.addDefaultParent_eq_ok {objects : Objects C M} {obj : C}
    {cls after : NqpClass C M} (adds : cls.addDefaultParent objects obj = .ok after)
    (distinct : cls.parents.Nodup) :
    after.parents.Nodup ∧ after.composed = cls.composed := by
  rw [addDefaultParent] at adds
  split at adds
  · rcases addParent_eq_ok adds with ⟨keeps, rfl⟩
    exact ⟨keeps distinct, rfl⟩
  · cases adds
    exact ⟨distinct, rfl⟩

namespace NqpClasses

variable {objects : Objects C M} {classes published after : NqpClasses C M}
  {acyclic : classes.Acyclic} {obj other : C} {name : String} {call : MetaCall C M}
  {dies : Option String} {calls : List (MetaCall C M)}

omit [DecidableEq C] in
theorem findInMro_congr {methods others : Methods C M} {mro : List C}
    (same : ∀ cls ∈ mro, (methods.methodTable cls).lookup name =
      (others.methodTable cls).lookup name) :
    methods.findInMro name mro = others.findInMro name mro := by
  induction mro with
  | nil => rfl
  | cons cls rest ih =>
    rw [Methods.findInMro, Methods.findInMro, same cls mem_cons_self,
      ih fun entry inRest => same entry (mem_cons_of_mem _ inRest)]

omit [DecidableEq C] in
theorem lookup_of_cache {cache : MethodTable M}
    (caches : (classes obj).published.methodCache = some cache) :
    classes.lookup obj name = (cache.lookup name).or
      (if (classes obj).published.authoritative then none else classes.findMethod obj name) := by
  have asked : classes.metaobjects.findMethod obj name false = classes.findMethod obj name := by
    unfold Methods.findMethod
    change (match classes.findMethod obj name with | some method => some method | none => none) = _
    cases classes.findMethod obj name <;> rfl
  have byName : classes.lookup obj name =
      defaultFindMethod.byName classes.metaobjects (classes obj).published obj name := by
    unfold lookup defaultFindMethod
    cases (classes obj).published.vtable <;> rfl
  rw [byName, defaultFindMethod.byName, caches, asked]
  dsimp only
  cases cache.lookup name <;> rfl

/-- Publishing changes what is published, and nothing else. -/
theorem publish_fields : (publish classes obj other).mro = (classes other).mro ∧
    (publish classes obj other).parents = (classes other).parents ∧
    (publish classes obj other).methods = (classes other).methods := by
  by_cases same : other = obj
  · subst same
    rw [publish, Function.update_self]
    exact ⟨rfl, rfl, rfl⟩
  · rw [publish, Function.update_of_ne same]
    exact ⟨rfl, rfl, rfl⟩

theorem publish_findMethod :
    (publish classes obj).findMethod other name = classes.findMethod other name := by
  rw [findMethod, publish_fields.1]
  exact findInMro_congr fun cls _ => congrArg (FiniteMap.lookup · name) publish_fields.2.2

/-- What is published under a name is what the metaobject finds. -/
theorem publish_caches (classes : NqpClasses C M) (obj : C) :
    ∃ cache, (publish classes obj obj).published.methodCache = some cache ∧
      ∀ name, cache.lookup name = (publish classes obj).findMethod obj name := by
  refine ⟨classes.metaobjects.collectMethods (classes obj).mro.reverse, ?_, fun name => ?_⟩
  · rw [publish, Function.update_self]
  · rw [publish_findMethod]
    exact Methods.lookup_collectMethods _

/-- One class is changed, and not what it inherits from. -/
def ChangesOnly (obj : C) (classes after : NqpClasses C M) : Prop :=
  ∀ other, (other ≠ obj → after other = classes other) ∧
    (after other).parents = (classes other).parents

theorem changesOnly_update {cls : NqpClass C M} (same : cls.parents = (classes obj).parents) :
    ChangesOnly obj classes (Function.update classes obj cls) := by
  refine fun other => ⟨fun differs => Function.update_of_ne differs .., ?_⟩
  by_cases differs : other = obj
  · subst differs
    rwa [Function.update_self]
  · rw [Function.update_of_ne differs]

theorem ChangesOnly.publish (changes : ChangesOnly obj classes after) :
    ChangesOnly obj classes (publish after obj) := fun other =>
  ⟨fun differs => (Function.update_of_ne differs ..).trans ((changes other).1 differs),
    publish_fields.2.1.trans (changes other).2⟩

theorem compose_changesOnly :
    ChangesOnly obj classes (compose objects classes acyclic obj).2 := by
  unfold compose
  split
  · exact fun _ => ⟨fun _ => rfl, rfl⟩
  split
  · exact changesOnly_update rfl
  · apply ChangesOnly.publish
    exact changesOnly_update rfl

theorem compose_returns (returns : (compose objects classes acyclic obj).1 = none) :
    ∃ middle, (compose objects classes acyclic obj).2 = publish middle obj ∧
      ((classes obj).composed = false → computeC3Mro acyclic obj = .ok (middle obj).mro) := by
  rw [compose] at returns ⊢
  split at returns
  · cases returns
  rename_i mro computed
  split at returns
  · cases returns
  rename_i methods incorporates
  refine ⟨_, rfl, fun fresh => ?_⟩
  rw [fresh] at computed
  rw [Function.update_self]
  exact computed

/-- A call that does not publish a class leaves it, or declares something in it. -/
theorem Step.keeps {cls : NqpClass C M} (step : Step objects classes call dies after)
    (quiet : call ≠ .compose obj) (keeps : cls.Keeps (classes obj)) : cls.Keeps (after obj) := by
  have others : ∀ {other : C} (entry : NqpClass C M), other ≠ obj →
      Function.update classes other entry obj = classes obj :=
    fun _ differs => Function.update_of_ne (Ne.symm differs) ..
  cases step with
  | @declared other declaration entry declares =>
    by_cases same : other = obj
    · subst same
      rw [Function.update_self]
      exact keeps.declare declares
    · rwa [others _ same]
  | @composed other entry adds acyclic =>
    have differs : other ≠ obj := fun same => quiet (same ▸ rfl)
    rwa [(compose_changesOnly obj).1 (Ne.symm differs), others _ differs]

theorem Run.keeps {cls : NqpClass C M} (run : Run objects published calls after)
    (quiet : .compose obj ∉ calls) (keeps : cls.Keeps (published obj)) :
    cls.Keeps (after obj) := by
  induction run with
  | start => exact keeps
  | further run step ih =>
    rw [mem_append, not_or, mem_singleton] at quiet
    exact step.keeps (Ne.symm quiet.2) (ih quiet.1)

theorem Step.nodup_parents (step : Step objects classes call dies after)
    (distinct : ∀ cls, (classes cls).parents.Nodup) (cls : C) : (after cls).parents.Nodup := by
  have updated : ∀ {obj : C} {entry : NqpClass C M}, entry.parents.Nodup →
      (Function.update classes obj entry cls).parents.Nodup := by
    intro obj entry nodup
    by_cases same : cls = obj
    · subst same
      rwa [Function.update_self]
    · rw [Function.update_of_ne same]
      exact distinct cls
  cases step with
  | @declared obj declaration entry declares =>
    apply updated
    cases declaration with
    | addParent parent =>
      rcases NqpClass.addParent_eq_ok declares with ⟨keeps, rfl⟩
      exact keeps (distinct obj)
    | addMethod name code =>
      simp only [NqpClass.declare, NqpClass.addMethod] at declares
      split at declares
      · cases declares
      cases code <;> cases declares
      exact distinct obj
    | addMultiMethod | setDefaultParent =>
      cases declares
      exact distinct obj
  | @composed obj entry adds acyclic =>
    rw [(compose_changesOnly cls).2]
    exact updated (NqpClass.addDefaultParent_eq_ok adds (distinct obj)).1

theorem Run.nodup_parents (run : Run objects classes calls after)
    (distinct : ∀ cls, (classes cls).parents.Nodup) : ∀ cls, (after cls).parents.Nodup := by
  induction run with
  | start => exact distinct
  | further run step ih => exact step.nodup_parents ih

theorem orders_congr {parents others : C → List C} (same : ∀ cls, parents cls = others cls)
    (acyclic : WellFounded fun parent child => parent ∈ parents child)
    (distinct : ∀ cls, (others cls).Nodup) {mro : List C}
    (computed : computeC3Mro acyclic obj = .ok mro) :
    ∃ acyclic : WellFounded fun parent child => parent ∈ others child,
      OrdersAncestors acyclic obj mro := by
  obtain rfl : parents = others := funext same
  exact ⟨acyclic, computeC3Mro_orders acyclic distinct computed⟩

/-- It publishes what the metaobject finds, from a new linearization. -/
theorem Step.composes (step : Step objects classes (.compose obj) none published)
    (distinct : ∀ cls, (classes cls).parents.Nodup) : (∃ middle, published = publish middle obj) ∧
      ((classes obj).composed = false →
        ∃ acyclic : published.Acyclic, OrdersAncestors acyclic obj (published obj).mro) := by
  have after := step.nodup_parents distinct
  generalize returned : (none : Option String) = dies at step
  cases step with
  | composed adds acyclic =>
    rcases compose_returns returned.symm with ⟨middle, isPublished, computes⟩
    refine ⟨⟨middle, isPublished⟩, fun fresh => ?_⟩
    refine orders_congr (fun cls => (compose_changesOnly cls).2.symm) acyclic after ?_
    rw [isPublished, publish_fields.1]
    apply computes
    rw [Function.update_self]
    exact (NqpClass.addDefaultParent_eq_ok adds (distinct obj)).2.trans fresh

/-- The classes as they are made, none of which declares anything. -/
def newTypes (names : C → String) (defaultParents : C → C) : NqpClasses C M :=
  fun obj => .newType (names obj) (defaultParents obj)

/-- What is published stays what lookups find. Right after a class is composed they find what
its metaobject does, along a C3 order of exactly its ancestors. Until it is composed again they
still find that; for what was not found then, the metaobject is asked, but only if the class
itself has got a method or a candidate since. -/
theorem methodCaches_until_composed {names : C → String} {defaultParents : C → C}
    {history later : List (MetaCall C M)} {before : NqpClasses C M}
    (begun : Run objects (newTypes names defaultParents) history before)
    (step : Step objects before (.compose obj) none published)
    (run : Run objects published later after) (quiet : .compose obj ∉ later) :
    ((before obj).composed = false →
      ∃ acyclic : published.Acyclic, OrdersAncestors acyclic obj (published obj).mro) ∧
    (after obj).mro = (published obj).mro ∧
    (∀ wanted, after.typeCheck obj wanted = .ok ((published obj).mro.contains wanted)) ∧
    ((after obj).published.authoritative = true ↔
      (after obj).methods = (published obj).methods ∧
      (after obj).multiMethodsToIncorporate = (published obj).multiMethodsToIncorporate) ∧
    ∀ name, published.lookup obj name = published.findMethod obj name ∧
      after.lookup obj name = (published.findMethod obj name).or
        (if (after obj).published.authoritative then none else after.findMethod obj name) ∧
      ((∀ cls ∈ (published obj).mro, (after cls).methods.lookup name =
        (published cls).methods.lookup name) →
        after.lookup obj name = after.findMethod obj name) := by
  have distinct := begun.nodup_parents fun cls => nodup_nil
  rcases step.composes distinct with ⟨⟨middle, rfl⟩, orders⟩
  have authoritative : (middle.publish obj obj).published.authoritative = true := by
    rw [publish, Function.update_self]
  have kept := run.keeps quiet ⟨rfl, rfl, rfl, le_rfl, iff_of_true authoritative ⟨rfl, rfl⟩⟩
  rcases publish_caches middle obj with ⟨cache, caches, finds⟩
  have lookups : ∀ name, after.lookup obj name = ((middle.publish obj).findMethod obj name).or
      (if (after obj).published.authoritative then none else after.findMethod obj name) := by
    intro name
    rw [lookup_of_cache (kept.methodCache.trans caches), finds]
  refine ⟨orders, kept.mro, fun wanted => ?_, kept.authoritative,
    fun name => ⟨?_, lookups name, ?_⟩⟩
  · rw [typeCheck, kept.typeCheckCache, publish, Function.update_self]
  · rw [lookup_of_cache caches, finds, authoritative]
    cases (middle.publish obj).findMethod obj name <;> rfl
  · intro same
    have found : after.findMethod obj name = (middle.publish obj).findMethod obj name := by
      rw [findMethod, kept.mro]
      exact findInMro_congr same
    rw [lookups, found]
    cases (middle.publish obj).findMethod obj name <;> simp

/-- Only the top class, which gets no default parent. -/
def topOnly : NqpClasses Unit Nat := newTypes (fun _ => "NQPMu") id

def plainObjects : Objects Unit Nat := ⟨fun _ => "NQPMu", fun _ => false, fun _ code => code⟩

/-- The top class, composed. -/
def topComposed : NqpClasses Unit Nat :=
  publish (Function.update topOnly () { topOnly () with mro := [()], composed := true }) ()

theorem methodCaches_until_composed_top : ∃ after,
    Run plainObjects topComposed [.declare () (.addMethod "new" (some 7))] after ∧
      after.typeCheck () () = .ok true := by
  have acyclic : Acyclic (Function.update topOnly () (topOnly ())) := ⟨fun _ => ⟨_, nofun⟩⟩
  have result : compose plainObjects _ acyclic () = (none, topComposed) := by
    rw [compose, computeC3Mro_root rfl]
    rfl
  have step : Step plainObjects topOnly (.compose ()) _ _ := .composed rfl acyclic
  rw [result] at step
  have run : Run plainObjects topComposed _ _ :=
    .further .start (@Step.declared _ _ _ _ _ () (.addMethod "new" (some 7)) _ rfl)
  exact ⟨_, run, (methodCaches_until_composed .start step run (by simp)).2.2.1 ()⟩

end NqpClasses

end RakudoStar.SixModel
