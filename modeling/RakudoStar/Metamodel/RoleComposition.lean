import RakudoStar.SixModel.MethodCache

/-!
# Composing roles into a role

`RoleToRoleApplier.apply`, and the parts of the target's metaobject that it calls.
-/

namespace RakudoStar.Metamodel

open Foundation SixModel

variable {M A C : Type} [DecidableEq M] [DecidableEq A] [DecidableEq C]

/-- What the applier asks: the `id` of a code object, whether it is a stub or a `Submethod`. -/
structure CodeObjects (M : Type) where
  id : M → Option Nat
  yada : M → Bool
  isSubmethod : M → Bool
  yada_of_id : ∀ {meth other : M} {address : Nat},
    id meth = some address → id other = some address → yada meth = yada other

/-- What names attributes and types. -/
structure Naming (A C : Type) where
  attr : A → String
  type : C → String

/-- What a role's metaobject answers; an absent table counts as empty. -/
structure Role (M A C : Type) where
  name : String
  methodTable : MethodTable M
  submethodTable : MethodTable M
  privateMethodTable : MethodTable M
  attributes : List A
  multiMethodsToIncorporate : List (String × M)
  parents : List C
  declaredOnce : ∀ name, methodTable.lookup name = none ∨ submethodTable.lookup name = none

structure Collision where
  name : String
  roles : List String
  isPrivate : Bool
  deriving DecidableEq, Repr

/-- The role that the others are composed into. -/
structure Target (M A C : Type) where
  obj : C
  name : String
  composed : Bool
  methods : MethodTable M
  submethods : MethodTable M
  /-- The metaobject may have no private methods. -/
  privateMethods : Option (MethodTable M)
  collisions : List Collision
  attributes : List A
  multiMethods : List (String × M)
  parents : List C

/-- What the composition dies with. -/
inductive ApplyError
  | alreadyHasMethod (package name : String)
  | attributeConflict (name : String)
  | alreadyHasAttribute (package name : String)
  | parentAfterComposition
  | inheritsFromItself (package : String)
  | alreadyHasParent (package parent : String)
  deriving DecidableEq, Repr

namespace ApplyError

def message : ApplyError → String
  | alreadyHasMethod package name =>
    "Package '" ++ package ++ "' already has a method '" ++ name ++
      "' (did you mean to declare a multi-method?)"
  | attributeConflict name =>
    "Attribute '" ++ name ++ "' conflicts in role composition"
  | alreadyHasAttribute package name =>
    "Package '" ++ package ++ "' already has an attribute named '" ++ name ++ "'"
  | parentAfterComposition =>
    "Parents cannot be added to a class after it has been composed"
  | inheritsFromItself package => "Class " ++ package ++ " cannot inherit from itself"
  | alreadyHasParent package parent =>
    "Package '" ++ package ++ "' already has parent '" ++ parent ++ "'"

end ApplyError

/-- A composition that dies leaves the target as it is by then. -/
abbrev Composing (M A C : Type) : Type → Type :=
  Except (ApplyError × Target M A C)

section

variable (code : CodeObjects M) (naming : Naming A C)

namespace Target

def addMethod (target : Target M A C) (name : String) (meth : M) : Composing M A C (Target M A C) :=
  if (target.methods.lookup name).isSome || (target.submethods.lookup name).isSome then
    .error (.alreadyHasMethod target.name name, target)
  else if code.isSubmethod meth then
    .ok { target with submethods := target.submethods.insert name meth }
  else
    .ok { target with methods := target.methods.insert name meth }

def addCollision (target : Target M A C) (name : String) (roles : List String)
    (isPrivate : Bool) : Target M A C :=
  { target with collisions := target.collisions ++ [⟨name, roles, isPrivate⟩] }

def addAttribute (target : Target M A C) (attr : A) : Composing M A C (Target M A C) :=
  if target.attributes.any fun other => naming.attr other = naming.attr attr then
    .error (.alreadyHasAttribute target.name (naming.attr attr), target)
  else
    .ok { target with attributes := target.attributes ++ [attr] }

def addParent (target : Target M A C) (parent : C) : Composing M A C (Target M A C) :=
  if target.composed then
    .error (.parentAfterComposition, target)
  else if parent = target.obj then
    .error (.inheritsFromItself target.name, target)
  else if target.parents.contains parent then
    .error (.alreadyHasParent target.name (naming.type parent), target)
  else
    .ok { target with parents := target.parents ++ [parent] }

end Target

/-- What the roles offer under a name, and the roles it came from. -/
structure Offers (M : Type) where
  meths : List M
  providers : List String

/-- Is a method on offer? The last comparable one decides. -/
def found (meths : List M) (meth : M) : Bool :=
  meths.foldl
    (fun found other =>
      if meth = other then true
      else
        match code.id meth, code.id other with
        | some address, some otherAddress => decide (address = otherAddress)
        | _, _ => found)
    false

def Offers.add (role : String) (offers : Offers M) (meth : M) : Offers M :=
  if found code offers.meths meth then offers
  else ⟨offers.meths ++ [meth], offers.providers ++ [role]⟩

abbrev MethInfo (M : Type) := FiniteMap nameEq (Offers M)

/-- `build_meth_info`, for one method of the table. -/
def offer (role : String) (info : MethInfo M) (entry : String × M) : MethInfo M :=
  info.insert entry.1 (((info.lookup entry.1).getD ⟨[], []⟩).add code role entry.2)

def buildMethInfo (role : String) (methods : MethodTable M) (info : MethInfo M) : MethInfo M :=
  methods.entries.foldl (offer code role) info

/-- The public methods of all roles. -/
def methInfo (roles : List (Role M A C)) : MethInfo M :=
  roles.foldl
    (fun info role =>
      buildMethInfo code role.name role.submethodTable
        (buildMethInfo code role.name role.methodTable info))
    FiniteMap.empty

/-- The private methods of all roles. -/
def privMethInfo (roles : List (Role M A C)) : MethInfo M :=
  roles.foldl (fun info role => buildMethInfo code role.name role.privateMethodTable info)
    FiniteMap.empty

/-- What is done with the methods on offer under a name. -/
inductive Decision (M : Type)
  | add (meth : M)
  | collide
  deriving DecidableEq

/-- The methods that are not requirements. -/
def implementations (meths : List M) : List M :=
  meths.filter fun meth => !code.yada meth

/-- One method is added; of several the one that is no requirement, or any. -/
def chooseMethod (meths : List M) : Option (Decision M) :=
  match meths with
  | [] => none
  | [meth] => some (.add meth)
  | first :: _ =>
    match implementations code meths with
    | [meth] => some (.add meth)
    | [] => some (.add first)
    | _ => some .collide

/-- Process the methods on offer under one name. -/
def composeMethod (target : Target M A C) (entry : String × Offers M) :
    Composing M A C (Target M A C) :=
  if (target.methods.lookup entry.1).isSome then .ok target
  else
    match chooseMethod code entry.2.meths with
    | some (.add meth) => target.addMethod code entry.1 meth
    | some .collide => .ok (target.addCollision entry.1 entry.2.providers false)
    | none => .ok target

def composePrivateMethod (target : Target M A C) (entry : String × Offers M) : Target M A C :=
  match target.privateMethods with
  | none => target
  | some privateMethods =>
    if (privateMethods.lookup entry.1).isSome then target
    else
      match entry.2.meths with
      | [] => target
      | [meth] => { target with privateMethods := some (privateMethods.insert entry.1 meth) }
      | _ => target.addCollision entry.1 entry.2.providers true

def composeMethods (target : Target M A C) (roles : List (Role M A C)) :
    Composing M A C (Target M A C) :=
  ((methInfo code roles).entries.foldlM (composeMethod code) target).map fun target =>
    (privMethInfo code roles).entries.foldl composePrivateMethod target

def composeAttribute (target : Target M A C) (attr : A) : Composing M A C (Target M A C) :=
  match target.attributes.find? fun other =>
      other ≠ attr && naming.attr other = naming.attr attr with
  | some other => .error (.attributeConflict (naming.attr other), target)
  | none =>
    if target.attributes.contains attr then .ok target
    else target.addAttribute naming attr

/-- The attributes, multi-methods and parents of one role. -/
def composeRest (target : Target M A C) (role : Role M A C) : Composing M A C (Target M A C) := do
  let target ← role.attributes.foldlM (composeAttribute naming) target
  let target :=
    { target with multiMethods := target.multiMethods ++ role.multiMethodsToIncorporate }
  role.parents.foldlM (Target.addParent naming) target

def apply (target : Target M A C) (roles : List (Role M A C)) : Composing M A C (Target M A C) := do
  let target ← composeMethods code target roles
  roles.foldlM (composeRest naming) target

end

end RakudoStar.Metamodel
