import RakudoStar.Binder.Signature

/-!
# A small object system

A hierarchy with a diamond (`gamma` is both an `alpha` and a `beta`) next to the built-in types,
and a runtime. It meets the laws assumed of an object system, and concrete runs are evaluated
over it.
-/

namespace RakudoStar.Diamond

open Binder

/-- The types of the hierarchy. -/
inductive Ty
  | mu
  | any
  | alpha
  | beta
  | gamma
  | int
  | num
  | str
  | junction
  | capture
  deriving DecidableEq, Repr

/-- An instance or the type object of a type. -/
structure Val where
  type : Ty
  concrete : Bool
  deriving DecidableEq, Repr

/-- What a type isa: its type check cache. -/
def Ty.mro : Ty → List Ty
  | .mu => [.mu]
  | .any => [.any, .mu]
  | .gamma => [.gamma, .alpha, .beta, .any, .mu]
  | .junction => [.junction, .mu]
  | type => [type, .any, .mu]

/-- The S-tables are numbered in steps of eight. -/
def Ty.cacheId : Ty → Nat
  | .mu => 8
  | .any => 16
  | .alpha => 24
  | .beta => 32
  | .gamma => 40
  | .int => 48
  | .num => 56
  | .str => 64
  | .junction => 72
  | .capture => 80

/-- The object system of the diamond. -/
def interp : Interp Ty Val where
  typeCheck type _ wanted := decide (wanted ∈ type.mro)
  typeCacheId := Ty.cacheId
  typeName := fun
    | .mu => "Mu"
    | .any => "Any"
    | .alpha => "Alpha"
    | .beta => "Beta"
    | .gamma => "Gamma"
    | .int => "Int"
    | .num => "Num"
    | .str => "Str"
    | .junction => "Junction"
    | .capture => "Capture"
  canBox type kind := decide ((type, kind) ∈
    [(.int, NativeKind.int), (.num, NativeKind.num), (.str, NativeKind.str)])
  mu := .mu
  any := .any
  intType := .int
  numType := .num
  strType := .str
  junction := .junction
  captureType := .capture
  what := Val.type
  isConcrete := Val.concrete
  isSixModel _ := true
  parrotMap := id
  decontainerize := id

theorem typeLattice : interp.TypeLattice where
  concreteness _ _ _ := rfl
  refl type := by cases type <;> decide
  trans first second third := by
    cases first <;> cases second <;> cases third <;> decide

theorem cacheIds : interp.CacheIds where
  injective first second equal := by
    cases first <;> cases second <;> first | rfl | simp [interp, Ty.cacheId] at equal
  even type := by cases type <;> rfl
  apart type kind := by cases type <;> cases kind <;> decide

/-- A runtime over the diamond in which no coercion method exists. -/
def runtime : Runtime Ty Val where
  toInterp := interp
  typeObject type := ⟨type, false⟩
  createBox
    | .int _ => ⟨.int, true⟩
    | .num _ => ⟨.num, true⟩
    | .str _ => ⟨.str, true⟩
    | .obj value => value
  getInt _ := 0
  getNum _ := 0
  getStr _ := ""
  instantiateGeneric type _ := .ok type
  callCoercion _ _ := none
  callCapture value := some (.ok value)
  captureList _ := some []
  captureHash _ := none
  newCapture _ _ := ⟨.capture, true⟩
  createPositional _ := ⟨.any, true⟩
  createLol _ := ⟨.any, true⟩
  createHash _ := ⟨.any, true⟩
  storeArray := .ok
  storeHash := .ok
  newScalar _ value := value
  accepts _ _ _ := .ok true
  outerLexical _ := ⟨.any, false⟩
  runThunk value _ := .ok value
  getAttr self _ _ := self
  callAccessor self _ := some (.ok self)
  contStore _ _ := .ok ()

/-- A positional parameter of a type with some flags, named `$x`. -/
def param (type : Ty) (flags : List SigElem) : Param Ty Val where
  variableName := some "$x"
  namedNames := none
  typeCaptures := none
  flags
  nominalType := type
  postConstraints := none
  coerceType := none
  coerceMethod := ""
  defaultValue := none
  containerDescriptor := none
  attrPackage := none

end RakudoStar.Diamond
