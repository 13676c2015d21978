import RakudoStar.P6opaque.Access

/-!
# Changing the type of an object

`change_type` accepts a type whose MRO ends in the object's, so its layout begins with the old
one: copying the body keeps every attribute, and the new storage is zeroed.
-/

namespace RakudoStar.P6opaque

open SixModel List
open Foundation

variable {C T V W : Type} [DecidableEq C]
  {r : Representations T V W} {h : Hierarchy C T Pmc} {data otherData : ReprData C T}
  { isP6opaque : C → Bool} {object after : Opaque C} {slot offset size : Nat} {name : String}
  {flattened : Option T} {target other : C} {classKey : C} {newType : C} {hint : Int}

section

variable (computed : Computed r h target data)

include computed

section

variable (computedOther : Computed r h other otherData)

include computedOther

section

variable (suffix : h.mro other <:+ h.mro target)

include suffix

end

end

end

section

variable (allocated : Allocated r h object data)

include allocated

end

end RakudoStar.P6opaque

namespace RakudoStar.P6opaque

open SixModel
open Foundation

variable [DecidableEq C]

/-- The reading of an attribute, without the object it leaves. -/
def reading (r : Representations T V W) (h : Hierarchy C T Pmc) (object : Opaque C)
    (classKey : C) (name : String) (hint : Int) (fresh : Pmc) (world : W) :
    Except Failure (Fetched T) :=
  (getAttributeBoxed r h object classKey name hint fresh world).map Prod.snd

variable [DecidableEq T]

section

variable {r : Representations T V W} {after : Opaque C}

end

/-- A representation of native integers: eight bytes, copied as they are. -/
def nativeInt : Representations Unit Nat Unit where
  size _ := 8
  inlined _ := true
  boxedPrimitive _ := .int
  reprId _ := 2
  initializes _ := false
  marks _ := false
  cleansUp _ := false
  copyTo _ _ source _ := toBytes 8 (ofBytes source)
  value _ body := ofBytes body % byteSpan 8
  length_copyTo _ _ _ _ := length_toBytes ..
  value_copyTo _ _ source _ := by rw [ofBytes_toBytes, Nat.mod_mod]
  pmcNull := 4096

/-- A class with a boxed attribute, and a child of it with a native one. -/
def parentAndChild : Hierarchy (Fin 2) Unit Pmc where
  name
    | 0 => "Parent"
    | 1 => "Child"
  parents
    | 0 => []
    | 1 => [0]
  mro
    | 0 => [0]
    | 1 => [1, 0]
  attributes
    | 0 => [{ name := "$!boxed", type := none, boxTarget := false, autoVivContainer := none }]
    | 1 => [{ name := "$!count", type := some (), boxTarget := true, autoVivContainer := none }]
  computed
    | 0 => rfl
    | 1 => rfl

def childData : ReprData (Fin 2) Unit :=
  { allocationSize := 32, attributeOffsets := [0, 8], flattenedStables := [none, some ()]
    mi := false, autoVivValues := [none, none], unboxIntSlot := some 1, unboxNumSlot := none
    unboxStrSlot := none, unboxSlots := [(2, 1)]
    nameToIndexMapping := [(0, some [("$!boxed", 0)]), (1, some [("$!count", 1)])]
    gcPmcMarkOffsets := [0], initializeSlots := [], gcMarkSlots := [], gcCleanupSlots := [] }

example : hintFor nativeInt parentAndChild 0 0 "$!boxed" = .ok 0 := by
  rfl

end RakudoStar.P6opaque
