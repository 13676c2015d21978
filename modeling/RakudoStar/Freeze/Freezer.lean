import RakudoStar.Packfile.Items
import Mathlib.Data.List.Nodup

/-!
# Graphs of PMCs

What freezing and thawing see of a PMC: its type, the items that its `freeze` and `visit` push,
and its metadata. `thaw` and `visit` of a type are a program that shifts items.
-/

namespace RakudoStar.Freeze

open Packfile

/-- An item that is pushed to an image or shifted from one. -/
inductive Item (P : Type) where
  | integer (value : Word)
  | float (value : FloatVal)
  | string (value : Option PStr)
  | pmc (value : Option P)

/-- What `thaw` and `visit` of a type shift, each item as those before it say. -/
inductive Thawing where
  | done
  | shiftInteger (next : Word → Thawing)
  | shiftFloat (next : FloatVal → Thawing)
  | shiftString (next : Option (Strings.Encoding × List UInt8) → Thawing)
  | shiftPmc (next : Bool → Thawing)

/-- A type shifts just these items. -/
def Thawing.Shifts {P : Type} : Thawing → List (Item P) → Prop
  | .done, [] => True
  | .shiftInteger next, .integer value :: items => (next value).Shifts items
  | .shiftFloat next, .float value :: items => (next value).Shifts items
  | .shiftString next, .string value :: items => (next (text value)).Shifts items
  | .shiftPmc next, .pmc value :: items => (next value.isNone).Shifts items
  | _, _ => False

/-- A PMC. -/
structure Obj (P : Type) where
  isObject : Bool
  vtableBaseType : Word
  items : List (Item P)
  metadata : Option P

/-- Finitely many PMCs; each type's `thaw` shifts what its `freeze` pushes. -/
structure World (P : Type) where
  obj : P → Obj P
  /-- `enum_class_Object`. -/
  objectType : Word
  vtableMax : Int
  thaw : Word → Thawing
  pmcs : List P
  finite : ∀ p, p ∈ pmcs
  fitsMemory : pmcs.length < 2 ^ 61

namespace World

variable {P : Type} (w : World P)

/-- The type that a PMC is created again with. -/
def baseType (p : P) : Word :=
  if (w.obj p).isObject then w.objectType else (w.obj p).vtableBaseType

/-- The types of all PMCs are registered, and push what they shift. -/
structure Lawful : Prop where
  registered : ∀ p, 0 < (w.baseType p).toInt ∧ (w.baseType p).toInt ≤ w.vtableMax
  shifts : ∀ p, (w.thaw (w.baseType p)).Shifts (w.obj p).items

end World

def Item.ref {P : Type} : Item P → Option P
  | .pmc value => value
  | _ => none

/-- The PMCs that a PMC refers to. -/
def World.refs {P : Type} (w : World P) (p : P) : List P :=
  (w.obj p).items.filterMap Item.ref ++ (w.obj p).metadata.toList

/-- A PMC is reached from a root. -/
def World.Reached {P : Type} (w : World P) (root : Option P) (p : P) : Prop :=
  ∃ first, root = some first ∧ Relation.ReflTransGen (fun q r => r ∈ w.refs q) first p

def packIdNormal : Nat := 0

def packIdSeen : Nat := 1

def packIdBackref : Nat := 2

def packIdNew (id flags : Nat) : Word :=
  BitVec.ofNat 64 id * 4 ||| BitVec.ofNat 64 flags &&& 3

/-- Lookups of strings and of PMCs of earlier constants, by number of the constant and id. -/
structure FreezeTable (P : Type) where
  rlookupStr : Option PStr → Option Nat
  rlookupPmc : P → Option (Nat × Nat)

/-- `ImageIOFreeze`, with the PMCs on which `freeze` was called. -/
structure Freezer (P : Type) where
  image : List UInt8
  seen : List (P × Nat)
  todo : List P
  id : Nat
  frozen : List P

section

variable [DecidableEq P] (w : World P) (table : Option (FreezeTable P))

namespace Freezer

variable (s : Freezer P)

def checkSeen (v : P) : Nat :=
  ((s.seen.find? fun entry => entry.1 = v).map Prod.snd).getD 0

def pushInteger (value : Word) : Freezer P :=
  { s with image := s.image ++ storeOpcode value }

def pushFloat (value : FloatVal) : Freezer P :=
  { s with image := s.image ++ storeOpcode value }

def pushString (value : Option PStr) : Freezer P :=
  let inline (s : Freezer P) : Freezer P := { s with image := s.image ++ storeString value }
  match table with
  | some table =>
    match table.rlookupStr value with
    | some idx => s.pushInteger (BitVec.ofNat 64 idx)
    | none => inline (s.pushInteger (-1))
  | none => inline s

/-- A PMC that has not been seen gets the next id. -/
def pushNew (v : P) : Freezer P :=
  let id := s.id + 1
  let s := { s with id }
  let s :=
    match table.bind fun table => table.rlookupPmc v with
    | some (constno, idx) =>
      ((s.pushInteger (packIdNew id packIdBackref)).pushInteger
        (BitVec.ofNat 64 constno)).pushInteger (BitVec.ofNat 64 idx - 1)
    | none =>
      let s := (s.pushInteger (packIdNew id packIdNormal)).pushInteger (w.baseType v)
      { s with todo := s.todo ++ [v] }
  { s with seen := s.seen ++ [(v, id)] }

def pushPmc : Option P → Freezer P
  | none => s.pushInteger (packIdNew 0 packIdSeen)
  | some v =>
    if s.checkSeen v ≠ 0 then
      s.pushInteger (packIdNew (s.checkSeen v) packIdSeen)
    else
      s.pushNew w table v

def pushItem : Item P → Freezer P
  | .integer value => s.pushInteger value
  | .float value => s.pushFloat value
  | .string value => s.pushString table value
  | .pmc value => s.pushPmc w table value

/-- `VTABLE_freeze` and `VTABLE_visit` of a PMC, and its metadata. -/
def freezeObject (current : P) : Freezer P :=
  ((w.obj current).items.foldl (pushItem w table) s).pushPmc w table (w.obj current).metadata

/-- The loop over the todo list, for a number of rounds. -/
def drain : Nat → Freezer P → Option (Freezer P)
  | rounds, s =>
    match s.todo with
    | [] => some s
    | current :: todo =>
      match rounds with
      | 0 => none
      | rounds + 1 =>
        drain rounds (freezeObject w table { s with todo, frozen := s.frozen ++ [current] } current)

end Freezer

end

/-- A packfile header that is written in front of an image, and what
`PackFile_unpack` makes of it. -/
structure Header where
  /-- The header of a new packfile. -/
  bytes : List UInt8
  /-- What is in the buffer up to the next multiple of sixteen. -/
  slack : List UInt8
  validate : List UInt8 → Except Fault Unit
  length_bytes : bytes.length = 18
  length_slack : slack.length = 14
  validated : validate bytes = .ok ()

def packfileHeaderBytes : Nat := 18

/-- `GROW_TO_16_BYTE_BOUNDARY(PACKFILE_HEADER_BYTES)`. -/
def headerLength : Nat := 32

def freeze [DecidableEq P] (header : Header) (w : World P) (table : Option (FreezeTable P))
    (root : Option P) : Option (Freezer P) :=
  let start : Freezer P :=
    { image := if table.isSome then [] else header.bytes ++ header.slack
      seen := [], todo := [], id := 0, frozen := [] }
  Freezer.drain w table w.pmcs.length (start.pushPmc w table root)

end RakudoStar.Freeze
