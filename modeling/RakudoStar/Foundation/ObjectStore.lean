import Mathlib.Data.List.Forall2

/-!
# Stores of objects

Objects are made, cloned and sent requests. A store of concrete objects answers like a store of
abstract ones when each object does.
-/

namespace RakudoStar.Foundation

variable {Object Abstract Request Reply Failure : Type}

structure ObjectClass (Object Request Reply Failure : Type) where
  new : Object
  clone : Object → Except Failure Object
  perform : Object → Request → Except Failure (Reply × Object)

/-- A command to a store, by the numbers of its objects. -/
inductive Command (Request : Type) where
  | new
  | clone (i : Nat)
  | request (i : Nat) (asked : Request)
  deriving Repr

inductive Answer (Reply Failure : Type) where
  | object (i : Nat)
  | reply (value : Reply)
  | failed (failure : Failure)
  | noSuchObject
  deriving DecidableEq, Repr

namespace ObjectClass

/-- One command. A failure leaves the store as it was. -/
def step (kind : ObjectClass Object Request Reply Failure) (store : List Object) :
    Command Request → Answer Reply Failure × List Object
  | .new => (.object store.length, store ++ [kind.new])
  | .clone i =>
    match store[i]? with
    | none => (.noSuchObject, store)
    | some object =>
      match kind.clone object with
      | .error failure => (.failed failure, store)
      | .ok copy => (.object store.length, store ++ [copy])
  | .request i asked =>
    match store[i]? with
    | none => (.noSuchObject, store)
    | some object =>
      match kind.perform object asked with
      | .error failure => (.failed failure, store)
      | .ok (reply, object) => (.reply reply, store.set i object)

/-- The answers to some commands, and the store after them. -/
def run (kind : ObjectClass Object Request Reply Failure) (store : List Object) :
    List (Command Request) → List (Answer Reply Failure) × List Object
  | [] => ([], store)
  | command :: commands =>
    let (answer, next) := kind.step store command
    let (answers, last) := kind.run next commands
    (answer :: answers, last)

/-- Two outcomes are alike: the same failure, or the same reply and related objects. -/
def Alike (related : Object → Abstract → Prop) :
    Except Failure (Reply × Object) → Except Failure (Reply × Abstract) → Prop
  | .ok (reply, object), .ok (other, abstract) => reply = other ∧ related object abstract
  | .error failure, .error other => failure = other
  | _, _ => False

/-- Two copies are alike. -/
def AlikeCopy (related : Object → Abstract → Prop) :
    Except Failure Object → Except Failure Abstract → Prop
  | .ok object, .ok abstract => related object abstract
  | .error failure, .error other => failure = other
  | _, _ => False

/-- The concrete class does what the abstract one does, to objects in a proper state. -/
structure Refines (kind : ObjectClass Object Request Reply Failure)
    (model : ObjectClass Abstract Request Reply Failure) (related : Object → Abstract → Prop)
    (properClone : Object → Prop) (properRequest : Object → Request → Prop) : Prop where
  new : related kind.new model.new
  clone : ∀ {object abstract}, related object abstract → properClone object →
    AlikeCopy related (kind.clone object) (model.clone abstract)
  perform : ∀ {object abstract asked}, related object abstract → properRequest object asked →
    Alike related (kind.perform object asked) (model.perform abstract asked)

def ProperCommand (properClone : Object → Prop) (properRequest : Object → Request → Prop)
    (store : List Object) : Command Request → Prop
  | .new => True
  | .clone i => ∀ object, store[i]? = some object → properClone object
  | .request i asked => ∀ object, store[i]? = some object → properRequest object asked

/-- Each command of a run meets its object in a proper state. -/
def ProperRun (kind : ObjectClass Object Request Reply Failure) (properClone : Object → Prop)
    (properRequest : Object → Request → Prop) (store : List Object) : List (Command Request) → Prop
  | [] => True
  | command :: commands =>
    ProperCommand properClone properRequest store command ∧
      kind.ProperRun properClone properRequest (kind.step store command).2 commands

section

variable {kind : ObjectClass Object Request Reply Failure}
  {model : ObjectClass Abstract Request Reply Failure} {related : Object → Abstract → Prop}
  {properClone : Object → Prop} {properRequest : Object → Request → Prop}
  {abstracts : List Abstract} {store : List Object} {abstract : Abstract} {object : Object}

section

variable (stores : List.Forall₂ related store abstracts)

include stores

theorem related_lookup (i : Nat) : (store[i]? = none ∧ abstracts[i]? = none) ∨
      ∃ object abstract, store[i]? = some object ∧ abstracts[i]? = some abstract ∧
        related object abstract := by
  induction stores generalizing i with
  | nil => exact .inl ⟨rfl, rfl⟩
  | cons first rest ih =>
    cases i with
    | zero => exact .inr ⟨_, _, rfl, rfl, first⟩
    | succ i => exact ih i

theorem related_set (i : Nat) (pair : related object abstract) :
    List.Forall₂ related (store.set i object) (abstracts.set i abstract) := by
  induction stores generalizing i with
  | nil => exact List.Forall₂.nil
  | cons first rest ih =>
    cases i with
    | zero => exact List.Forall₂.cons pair rest
    | succ i => exact List.Forall₂.cons first (ih i)

theorem related_append (pair : related object abstract) :
    List.Forall₂ related (store ++ [object]) (abstracts ++ [abstract]) :=
  List.rel_append stores (.cons pair .nil)

end

variable (refines : kind.Refines model related properClone properRequest)

include refines

/-- One command is answered alike and keeps the stores related. -/
theorem Refines.step {command : Command Request} (stores : List.Forall₂ related store abstracts)
    (proper : ProperCommand properClone properRequest store command) :
    (kind.step store command).1 = (model.step abstracts command).1 ∧
      List.Forall₂ related (kind.step store command).2 (model.step abstracts command).2 := by
  cases command with
  | new =>
    constructor
    · exact congrArg Answer.object stores.length_eq
    · exact related_append stores refines.new
  | clone i =>
    rcases related_lookup stores i with ⟨missing, gone⟩ | ⟨object, abstract, found, stands, pair⟩
    · simp only [ObjectClass.step, missing, gone]
      exact ⟨trivial, stores⟩
    have alike := refines.clone pair (proper object found)
    simp only [ObjectClass.step, found, stands]
    revert alike
    rcases kind.clone object with failure | copy <;>
      rcases model.clone abstract with other | other <;> intro alike
    · exact ⟨congrArg Answer.failed alike, stores⟩
    · exact alike.elim
    · exact alike.elim
    · exact ⟨congrArg Answer.object stores.length_eq, related_append stores alike⟩
  | request i asked =>
    rcases related_lookup stores i with ⟨missing, gone⟩ | ⟨object, abstract, found, stands, pair⟩
    · simp only [ObjectClass.step, missing, gone]
      exact ⟨trivial, stores⟩
    have alike := @Refines.perform _ _ _ _ _ _ _ _ _ _ refines _ _ asked pair (proper object found)
    simp only [ObjectClass.step, found, stands]
    revert alike
    rcases kind.perform object asked with failure | outcome <;>
      rcases model.perform abstract asked with other | other <;> intro alike
    · exact ⟨congrArg Answer.failed alike, stores⟩
    · exact alike.elim
    · exact alike.elim
    · exact ⟨congrArg Answer.reply alike.1, related_set stores i alike.2⟩

/-- A run is answered alike and ends in related stores. -/
theorem Refines.run {commands : List (Command Request)}
    (stores : List.Forall₂ related store abstracts)
    (proper : kind.ProperRun properClone properRequest store commands) :
    (kind.run store commands).1 = (model.run abstracts commands).1 ∧
      List.Forall₂ related (kind.run store commands).2 (model.run abstracts commands).2 := by
  induction commands generalizing store abstracts with
  | nil => exact ⟨rfl, stores⟩
  | cons command commands ih =>
    rcases refines.step stores proper.1 with ⟨answered, next⟩
    rcases ih next proper.2 with ⟨rest, last⟩
    exact ⟨List.cons_eq_cons.mpr ⟨answered, rest⟩, last⟩

end

end ObjectClass

end RakudoStar.Foundation
