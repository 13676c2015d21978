import RakudoStar.Binder.Signature
import RakudoStar.Foundation.Except

/-!
# Binding one parameter

`Rakudo_binding_bind_one_param` of `bind.c`, cut into its steps in order. The recursive call for
the sub-signature is a parameter here; the module on `bind` ties the knot.
-/

namespace RakudoStar.Binder

variable {Ty : Type} {Val : Type} [DecidableEq Ty]

/-- The result of the steps of the binder. -/
abbrev Result (α : Type) := Except Failure α

/-- Bind a value (with or without nominal type check) into a lexpad. -/
abbrev ParamBinder (Val : Type) :=
  BindVal Val → Bool → Lexpad Val → Result (Lexpad Val)

abbrev SignatureBinder (Val : Type) :=
  Capture Val → Bool → Lexpad Val → Result (Lexpad Val)

section

/-- `if (error) *error = ...; return BIND_RESULT_FAIL`. -/
def failWith {α : Type} (wantError : Bool) (message : String) : Result α :=
  .error (.fail (if wantError then some message else none))

/-- `*error = ...; return BIND_RESULT_FAIL`, whether or not there is a place for the message. -/
def failUnguarded {α : Type} (wantError : Bool) (message : String) : Result α :=
  .error (if wantError then .fail (some message) else .crash)

/-- Report with `junc_or_fail`: a junction asks for auto-threading. -/
def juncOrFail {α : Type} (runtime : Runtime Ty Val) (wantError : Bool)
    (value : Val) (message : String) : Result α :=
  let error := if wantError then some message else none
  if runtime.isSixModel value && runtime.what value = runtime.junction then
    .error (.junction error)
  else
    .error (.fail error)

/-- Let an exception of called code pass through. -/
def liftException {α : Type} : Except Exception α → Result α
  | .ok value => .ok value
  | .error exception => .error (.thrown exception)

@[simp]
theorem liftException_ok {α : Type} (value : α) : liftException (.ok value) = .ok value :=
  rfl

end

variable (runtime : Runtime Ty Val) (wantError : Bool)

/-- Unbox an object as a native of the wanted kind, if its storage allows. -/
def unboxAs (param : Param Ty Val) (kind : NativeKind) (object : Val) : Result (BindVal Val) :=
  let decont := runtime.decontainerize object
  if runtime.canBox (runtime.what decont) kind then
    .ok (runtime.unbox kind decont)
  else
    failWith wantError (match kind with
      | .int => s!"Cannot unbox argument to '{param.name}' as a native int"
      | .num => s!"Cannot unbox argument to '{param.name}' as a native num"
      | .str => s!"Cannot unbox argument to '{param.name}' as a native str")

/-- Meet boxed or unboxed expectations; another kind's union is read as a pointer. -/
def matchNative (param : Param Ty Val) (orig : BindVal Val) : Result (BindVal Val) :=
  match param.nativeKinds with
  | [] =>
    match orig with
    | .obj _ => .ok orig
    | native => .ok (.obj (runtime.createBox native))
  | [kind] =>
    match orig with
    | .obj object => unboxAs runtime wantError param kind object
    | native => if native.nativeKind = some kind then .ok native else .error .crash
  | _ =>
    match orig with
    | .obj _ =>
      failWith wantError s!"Cannot unbox argument to '{param.name}' as a native type"
    | _ => .error .crash

/-- Marshal a foreign object to a 6model one. -/
def marshal (param : Param Ty Val) (object : Val) : Result Val :=
  if runtime.isSixModel object then
    .ok object
  else if runtime.isSixModel (runtime.parrotMap object) then
    .ok (runtime.parrotMap object)
  else
    failUnguarded wantError
      s!"Unmarshallable foreign language value passed for parameter '{param.name}'"

/-- The nominal type to check against, instantiated if it is generic. -/
def nominalTypeOf (param : Param Ty Val) (lexpad : Lexpad Val) : Result Ty :=
  if param.has .nominalGeneric then
    liftException (runtime.instantiateGeneric param.nominalType lexpad)
  else
    .ok param.nominalType

/-- Enforce definedness constraints. -/
def checkDefinedness (param : Param Ty Val) (decont : Val) : Result Unit :=
  if param.hasDefinednessCheck then
    if runtime.isConcrete decont && param.has .undefinedOnly then
      juncOrFail runtime wantError decont
        s!"Parameter '{param.name}' requires a type object, but an object instance was passed"
    else if !runtime.isConcrete decont && param.has .definedOnly then
      juncOrFail runtime wantError decont
        s!"Parameter '{param.name}' requires an instance, but a type object was passed"
    else
      .ok ()
  else
    .ok ()

def checkNominal (param : Param Ty Val) (decont : Val) (lexpad : Lexpad Val) : Result Unit := do
  let nominal ← nominalTypeOf runtime param lexpad
  if nominal ≠ runtime.mu ∧
      (!runtime.isSixModel decont || !runtime.objectCheck decont nominal) then
    juncOrFail runtime wantError decont
      (s!"Nominal type check failed for parameter '{param.name}'; expected " ++
        s!"{runtime.typeName nominal} but got {runtime.typeName (runtime.what decont)} instead")
  else
    checkDefinedness runtime wantError param decont

/-- Marshal, decontainerize and check an object; a native value needs no check. -/
def checkValue (param : Param Ty Val) (value : BindVal Val)
    (noNomTypeCheck : Bool) (lexpad : Lexpad Val) : Result (BindVal Val × Option Val) :=
  match value with
  | .obj object => do
    let marshalled ← marshal runtime wantError param object
    let decont := runtime.decontainerize marshalled
    if noNomTypeCheck then
      .ok (.obj marshalled, some decont)
    else do
      checkNominal runtime wantError param decont lexpad
      .ok (.obj marshalled, some decont)
  | native => .ok (native, none)

def bindTypeCaptures (param : Param Ty Val) (value : BindVal Val)
    (lexpad : Lexpad Val) : Lexpad Val :=
  match param.typeCaptures with
  | none => lexpad
  | some names =>
    let type := match value with
      | .obj object => runtime.what (runtime.decontainerize object)
      | .int _ => runtime.intType
      | .num _ => runtime.numType
      | .str _ => runtime.strType
    names.foldl (fun pad name => pad.set name (.obj (runtime.typeObject type))) lexpad

/-- Do a coercion, if one is needed. Returns the new `decont_value`. -/
def coerce (param : Param Ty Val) (decont : Option Val) : Result (Option Val) :=
  match param.coerceType, decont with
  | none, _ => .ok decont
  | some _, none =>
    failUnguarded wantError s!"Unable to coerce natively typed parameter '{param.name}'"
  | some coerceType, some object =>
    if runtime.objectCheck object coerceType then
      .ok (some object)
    else
      match runtime.callCoercion param.coerceMethod object with
      | some coerced => (liftException coerced).map some
      | none =>
        failWith wantError
          (s!"Unable to coerce value for '{param.name}' from " ++
            s!"{runtime.typeName (runtime.what object)} to {param.coerceMethod}; " ++
            "no coercion method defined")

/-- Bind a value that is not attributive into the lexpad. -/
def bindLexical (param : Param Ty Val) (value : BindVal Val)
    (decont : Option Val) (lexpad : Lexpad Val) : Result (Lexpad Val) :=
  match param.variableName with
  | none => .ok lexpad
  | some name =>
    if param.isAttributive then
      .ok lexpad
    else
      match value, decont with
      | .obj object, some decont =>
        if param.has .isRw || param.has .isParcel then
          .ok (lexpad.set name (.obj object))
        else if param.has .arraySigil then
          if param.has .isCopy then do
            let bindee ← liftException (runtime.storeArray decont)
            .ok (lexpad.set name (.obj bindee))
          else
            .ok (lexpad.set name (.obj decont))
        else if param.has .hashSigil then
          if param.has .isCopy then do
            let bindee ← liftException (runtime.storeHash decont)
            .ok (lexpad.set name (.obj bindee))
          else
            .ok (lexpad.set name (.obj decont))
        else
          .ok (lexpad.set name (.obj (runtime.newScalar param.containerDescriptor decont)))
      | native, _ => .ok (lexpad.set name native)

/-- The invocant is also bound to `self`; a native has no `decont_value`. -/
def bindInvocant (param : Param Ty Val) (decont : Option Val) (lexpad : Lexpad Val) : Lexpad Val :=
  if param.has .invocant then
    match decont with
    | some object => lexpad.set "self" (.obj object)
    | none => lexpad.setNull "self"
  else
    lexpad

def checkConstraints (param : Param Ty Val) (value : BindVal Val)
    (lexpad : Lexpad Val) : List Val → Result Unit
  | [] => .ok ()
  | constraint :: constraints => do
    let accepted ← liftException (runtime.accepts constraint value lexpad)
    if accepted then
      checkConstraints param value lexpad constraints
    else
      failWith wantError s!"Constraint type check failed for parameter '{param.name}'"

def assignAttributive (param : Param Ty Val) (value : BindVal Val)
    (decont : Option Val) (lexpad : Lexpad Val) : Result Unit :=
  match lexpad.getObject "self" with
  | none =>
    failWith wantError s!"Unable to bind attributive parameter '{param.name}' - could not find self"
  | some self =>
    match value, decont with
    | .obj _, some decont =>
      if param.has .bindPrivateAttr then
        liftException (runtime.contStore (runtime.getAttr self param.attrPackage param.name) decont)
      else
        match runtime.callAccessor self param.name with
        | none =>
          failWith wantError
            (s!"Unable to bind attributive parameter '$.{param.name}' - " ++
              s!"could not find method '{param.name}'")
        | some accessor => do
          let assignee ← liftException accessor
          liftException (runtime.contStore assignee decont)
    | _, _ =>
      failUnguarded wantError
        s!"Binding to natively typed attributive parameter '{param.name}' not supported"

/-- Turn a value into a capture, unless it is one already. -/
def subCapture (param : Param Ty Val) (decont : Val) : Result Val :=
  if param.has .isCapture then
    .ok decont
  else
    match runtime.callCapture decont with
    | none => failWith wantError "Could not turn argument into capture"
    | some capture => liftException capture

/-- Note in an error message that the failure is in a sub-signature. -/
def inSubSignature (param : Param Ty Val) (message : String) : String :=
  message ++ " in sub-signature" ++
    match param.variableName with
    | some name => " of parameter " ++ name
    | none => ""

def noteSubSignature (param : Param Ty Val) : Failure → Failure
  | .fail error => .fail (error.map (inSubSignature param))
  | .junction error => .junction (error.map (inSubSignature param))
  | failure => failure

def bindSubSignature (param : Param Ty Val)
    (subSignature : Option (SignatureBinder Val)) (decont : Option Val)
    (noNomTypeCheck : Bool) (lexpad : Lexpad Val) : Result (Lexpad Val) :=
  match subSignature, decont with
  | some bindSignature, some object => do
    let capture ← subCapture runtime wantError param object
    (bindSignature (.object capture) noNomTypeCheck lexpad).mapError (noteSubSignature param)
  | _, _ => .ok lexpad

/-- The steps after the type check, which no caller can skip. -/
def bindChecked (param : Param Ty Val)
    (subSignature : Option (SignatureBinder Val)) (value : BindVal Val)
    (decont : Option Val) (noNomTypeCheck : Bool) (lexpad : Lexpad Val) : Result (Lexpad Val) := do
  let withTypes := bindTypeCaptures runtime param value lexpad
  let coerced ← coerce runtime wantError param decont
  let withLexical ← bindLexical runtime param value coerced withTypes
  let withSelf := bindInvocant param coerced withLexical
  checkConstraints runtime wantError param value withSelf (param.postConstraints.getD [])
  if param.isAttributive then
    assignAttributive runtime wantError param value coerced withSelf
  bindSubSignature runtime wantError param subSignature coerced noNomTypeCheck withSelf

def bindOneParam (param : Param Ty Val)
    (subSignature : Option (SignatureBinder Val)) : ParamBinder Val :=
  fun orig noNomTypeCheck lexpad => do
    let value ← matchNative runtime wantError param orig
    let (bound, decont) ←
      checkValue runtime wantError param value noNomTypeCheck lexpad
    bindChecked runtime wantError param subSignature bound decont noNomTypeCheck lexpad

end RakudoStar.Binder
