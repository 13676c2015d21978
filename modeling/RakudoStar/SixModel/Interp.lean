import Mathlib.Data.List.Basic

/-!
# The 6model object system as the binder and the multi-dispatcher see it

What the C code reaches through an S-table, in one record. Type objects `Ty` are compared by
identity. Methods of user-visible objects run arbitrary Perl 6 code: they are functions of the
record, with exceptions as results.
-/

namespace RakudoStar

/-- The native kinds a register, a cell or a parameter may have. -/
inductive NativeKind
  | int
  | num
  | str
  deriving DecidableEq, Repr

/-- `Rakudo_BindVal` and `Pcc_cell`; a float is kept as its 64 bits. -/
inductive BindVal (Val : Type)
  | int (value : Int)
  | num (bits : UInt64)
  | str (value : String)
  | obj (value : Val)
  deriving DecidableEq, Repr

namespace BindVal

variable {Val : Type}

/-- The native kind of a bind value, `none` for an object. -/
def nativeKind : BindVal Val → Option NativeKind
  | .int _ => some .int
  | .num _ => some .num
  | .str _ => some .str
  | .obj _ => none

end BindVal

namespace NativeKind

/-- `BIND_VAL_INT`, `BIND_VAL_NUM` and `BIND_VAL_STR`. -/
def code : NativeKind → Nat
  | .int => 1
  | .num => 2
  | .str => 3

theorem code_injective : Function.Injective code := by
  intro first second codes
  cases first <;> cases second <;> simp_all [code]

end NativeKind

/-- An exception thrown out of the C code, with its message. -/
structure Exception where
  message : String
  deriving DecidableEq, Repr

/-- S-tables, the type registry of `types.c` and the container API. -/
structure Interp (Ty : Type) (Val : Type) where
  /-- `STABLE(obj)->type_check(obj, wanted)` for an object of the given type
  and concreteness. -/
  typeCheck : Ty → Bool → Ty → Bool
  typeCacheId : Ty → Nat
  typeName : Ty → String
  /-- Does the storage specification of the type allow unboxing this kind? -/
  canBox : Ty → NativeKind → Bool
  mu : Ty
  any : Ty
  intType : Ty
  numType : Ty
  strType : Ty
  junction : Ty
  captureType : Ty
  what : Val → Ty
  isConcrete : Val → Bool
  /-- Is the PMC a 6model object at all? -/
  isSixModel : Val → Bool
  parrotMap : Val → Val
  decontainerize : Val → Val

namespace Interp

variable {Ty : Type}

def boxType (interp : Interp Ty Val) : NativeKind → Ty
  | .int => interp.intType
  | .num => interp.numType
  | .str => interp.strType

/-- The type test of an object against a wanted type. -/
def objectCheck (interp : Interp Ty Val) (object : Val) (wanted : Ty) : Bool :=
  interp.typeCheck (interp.what object) (interp.isConcrete object) wanted

/-- Identifiers from `stable.pmc`: distinct, even, and no codes of native kinds. -/
structure CacheIds (interp : Interp Ty Val) : Prop where
  injective : Function.Injective interp.typeCacheId
  even : ∀ type, interp.typeCacheId type % 2 = 0
  apart : ∀ type kind, interp.typeCacheId type + 1 ≠ 2 * NativeKind.code kind + 1

/-- Type checks form a preorder, for concrete objects and type objects alike. -/
structure TypeLattice (interp : Interp Ty Val) : Prop where
  concreteness : ∀ type concrete wanted,
    interp.typeCheck type concrete wanted = interp.typeCheck type false wanted
  refl : ∀ type, interp.typeCheck type false type = true
  trans : ∀ first second third,
    interp.typeCheck first false second = true → interp.typeCheck second false third = true →
    interp.typeCheck first false third = true

/-- `sub` is `super` or one of its subtypes. -/
def IsSubtype (interp : Interp Ty Val) (sub super : Ty) : Prop :=
  interp.typeCheck sub false super = true

instance (interp : Interp Ty Val) (sub super : Ty) : Decidable (interp.IsSubtype sub super) :=
  inferInstanceAs (Decidable (_ = true))

theorem TypeLattice.check_of_subtype {interp : Interp Ty Val}
    (lattice : interp.TypeLattice) {sub super wanted : Ty} (concrete : Bool)
    (below : interp.IsSubtype sub super) (checked : interp.typeCheck super false wanted = true) :
    interp.typeCheck sub concrete wanted = true := by
  rw [lattice.concreteness]
  exact lattice.trans sub super wanted below checked

end Interp

variable {Ty Val : Type}

/-- What the optimizer knows of an argument: a native kind, or a type. -/
inductive CtArg (Ty : Type)
  | native (kind : NativeKind)
  | object (type : Ty)
  deriving DecidableEq, Repr

namespace CtArg

def boxedType (interp : Interp Ty Val) : CtArg Ty → Ty
  | .native kind => interp.boxType kind
  | .object type => type

end CtArg

/-- An instance of what the optimizer knows. -/
inductive InstanceOf (interp : Interp Ty Val) : CtArg Ty → BindVal Val → Prop
  | native {kind value} (isKind : value.nativeKind = some kind) :
      InstanceOf interp (.native kind) value
  | object {type object} (sixModel : interp.isSixModel object = true)
      (decontSixModel : interp.isSixModel (interp.decontainerize object) = true)
      (below : interp.IsSubtype (interp.what (interp.decontainerize object)) type) :
      InstanceOf interp (.object type) (.obj object)

end RakudoStar
