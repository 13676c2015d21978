import RakudoStar.SixModel.Interp
import Mathlib.Data.List.AList

/-!
# Signatures, captures and lexpads

The data that the signature binder of `bind.c` walks over. A `Rakudo_Parameter` is kept apart
from its nested signature, which makes the type of parameters recursive.
-/

namespace RakudoStar.Binder

/-- The flags that can be set on a signature element (`bind.h`). -/
inductive SigElem
  | bindCapture
  | bindPrivateAttr
  | bindPublicAttr
  | slurpyPos
  | slurpyNamed
  | slurpyLol
  | invocant
  | multiInvocant
  | isRw
  | isCopy
  | isParcel
  | isOptional
  | arraySigil
  | hashSigil
  | defaultFromOuter
  | isCapture
  | undefinedOnly
  | definedOnly
  | methodSlurpyNamed
  | nominalGeneric
  | defaultIsLiteral
  | nativeIntValue
  | nativeNumValue
  | nativeStrValue
  deriving DecidableEq, Repr

/-- The fields of a `Rakudo_Parameter`, save the nested signature. -/
structure Param (Ty : Type) (Val : Type) where
  variableName : Option String
  namedNames : Option (List String)
  typeCaptures : Option (List String)
  flags : List SigElem
  nominalType : Ty
  postConstraints : Option (List Val)
  coerceType : Option Ty
  coerceMethod : String
  defaultValue : Option Val
  containerDescriptor : Option Val
  attrPackage : Option Ty

namespace Param

variable {Ty : Type} {Val : Type}

def has (param : Param Ty Val) (flag : SigElem) : Bool :=
  decide (flag ∈ param.flags)

/-- The name as the `%S` of an error message prints it. -/
def name (param : Param Ty Val) : String :=
  param.variableName.getD ""

/-- The kinds in `param->flags & SIG_ELEM_NATIVE_VALUE`. -/
def nativeKinds (param : Param Ty Val) : List NativeKind :=
  (if param.has .nativeIntValue then [.int] else []) ++
    (if param.has .nativeNumValue then [.num] else []) ++
      (if param.has .nativeStrValue then [.str] else [])

/-- `param->flags & SIG_ELEM_BIND_ATTRIBUTIVE`. -/
def isAttributive (param : Param Ty Val) : Bool :=
  param.has .bindPrivateAttr || param.has .bindPublicAttr

/-- `param->flags & SIG_ELEM_DEFINEDNES_CHECK`. -/
def hasDefinednessCheck (param : Param Ty Val) : Bool :=
  param.has .undefinedOnly || param.has .definedOnly

end Param

/-- A parameter with its nested signature `sub_llsig`. A signature is the
list of its parameters. -/
inductive Parameter (Ty : Type) (Val : Type)
  | mk (param : Param Ty Val) (subLlsig : Option (List (Parameter Ty Val)))

namespace Parameter

def param : Parameter Ty Val → Param Ty Val
  | .mk param _ => param

def subLlsig : Parameter Ty Val → Option (List (Parameter Ty Val))
  | .mk _ subLlsig => subLlsig

@[simp]
theorem param_mk (param : Param Ty Val)
    (subLlsig : Option (List (Parameter Ty Val))) : (Parameter.mk param subLlsig).param = param :=
  rfl

end Parameter

/-- A Parrot `Hash` of named arguments. -/
abbrev NamedArgs (Val : Type) := AList fun _ : String => Val

/-- What the binder is handed: a call context, or any other PMC. -/
inductive Capture (Val : Type)
  | callContext (positionals : List (BindVal Val)) (named : Option (NamedArgs Val))
  | object (value : Val)

/-- An opened capture; `none` is `PMCNULL`. -/
structure Args (Val : Type) where
  positionals : List (BindVal Val)
  named : Option (NamedArgs Val)

/-- The lexpad a signature is bound into. -/
structure Lexpad (Val : Type) where
  isPerl6LexPad : Bool
  symbols : List (String × BindVal Val)
  defaultNamedSlurpy : Option (Option (NamedArgs Val))

namespace Lexpad

/-- An empty lexpad of the Perl 6 kind. -/
def empty : Lexpad Val :=
  { isPerl6LexPad := true, symbols := [], defaultNamedSlurpy := none }

/-- Store a value under a name; the newest entry is found first. -/
def set (lexpad : Lexpad Val) (name : String) (value : BindVal Val) : Lexpad Val :=
  { lexpad with symbols := (name, value) :: lexpad.symbols }

/-- Store a null pointer under a name. -/
def setNull (lexpad : Lexpad Val) (name : String) : Lexpad Val :=
  { lexpad with symbols := lexpad.symbols.filter fun entry => entry.1 != name }

/-- The object stored under a name, `none` for `PMCNULL`. -/
def getObject (lexpad : Lexpad Val) (name : String) : Option Val :=
  match lexpad.symbols.lookup name with
  | some (.obj value) => some value
  | _ => none

end Lexpad

/-- How binding ends without `BIND_RESULT_OK`; `crash` is a wild dereference. -/
inductive Failure
  | fail (error : Option String)
  | junction (error : Option String)
  | thrown (exception : Exception)
  | crash
  deriving DecidableEq, Repr

/-- The parts of the runtime the binder calls out to, beyond type checks. -/
structure Runtime (Ty : Type) (Val : Type) extends Interp Ty Val where
  /-- The type object itself, used as a default value. -/
  typeObject : Ty → Val
  createBox : BindVal Val → Val
  getInt : Val → Int
  getNum : Val → UInt64
  getStr : Val → String
  /-- `HOW.instantiate_generic(type, lexpad)`. -/
  instantiateGeneric : Ty → Lexpad Val → Except Exception Ty
  /-- Find a coercion method by name on a value and call it. -/
  callCoercion : String → Val → Option (Except Exception Val)
  /-- Find the method `Capture` on a value and call it. -/
  callCapture : Val → Option (Except Exception Val)
  /-- `$!list` of a Capture, when it is a native list. -/
  captureList : Val → Option (List Val)
  /-- `$!hash` of a Capture, when it is a Parrot Hash. -/
  captureHash : Val → Option (NamedArgs Val)
  /-- Allocate a Capture from its two parts. -/
  newCapture : List Val → NamedArgs Val → Val
  /-- `Rakudo_binding_create_positional`; `none` stands for `PMCNULL`. -/
  createPositional : Option (List Val) → Val
  createLol : List Val → Val
  createHash : NamedArgs Val → Val
  /-- `Rakudo_cont_store` into a fresh array. -/
  storeArray : Val → Except Exception Val
  /-- `Rakudo_cont_store` into a fresh hash. -/
  storeHash : Val → Except Exception Val
  /-- A Scalar made from a container descriptor and holding the value. -/
  newScalar : Option Val → Val → Val
  /-- Call `ACCEPTS` of a constraint on the value being bound. -/
  accepts : Val → BindVal Val → Lexpad Val → Except Exception Bool
  /-- The lexical of the given name in the outer lexpad. -/
  outerLexical : String → Val
  /-- Run a default value thunk. -/
  runThunk : Val → Lexpad Val → Except Exception Val
  /-- The private attribute of an object. -/
  getAttr : Val → Option Ty → String → Val
  /-- Find the accessor of a public attribute and call it. -/
  callAccessor : Val → String → Option (Except Exception Val)
  /-- `Rakudo_cont_store` with type and rw check. -/
  contStore : Val → Val → Except Exception Unit

/-- Unbox a value to a native of the given kind. -/
def Runtime.unbox {Ty Val : Type} (runtime : Runtime Ty Val) (kind : NativeKind)
    (value : Val) : BindVal Val :=
  match kind with
  | .int => .int (runtime.getInt value)
  | .num => .num (runtime.getNum value)
  | .str => .str (runtime.getStr value)

end RakudoStar.Binder
