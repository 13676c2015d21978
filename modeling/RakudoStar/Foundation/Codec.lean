import Mathlib.Data.List.Basic

/-!
# Reading what was written

A reader reads a text as a value when it takes exactly that text from a stream, whatever
follows; readings of parts put together are readings of the whole.
-/

namespace RakudoStar.Foundation

open List

variable {U A B : Type}

abbrev StreamReader (U A : Type) := StateT (List U) Option A

/-- The reader takes the text from the front of any stream and gives the value. -/
def Reads (reader : StreamReader U A) (text : List U) (value : A) : Prop :=
  ∀ rest, reader (text ++ rest) = some (value, rest)

theorem Reads.pure (value : A) : Reads (U := U) (pure value) [] value :=
  fun _ => rfl

variable {reader : StreamReader U A} {next : A → StreamReader U B}

theorem Reads.bind {text more : List U} {first : A} {second : B} (begins : Reads reader text first)
    (follows : Reads (next first) more second) : Reads (reader >>= next) (text ++ more) second := by
  intro rest
  change (reader (text ++ more ++ rest)).bind _ = _
  rw [append_assoc, begins]
  exact follows rest

theorem Reads.last {text : List U} {first : A} {value : B} (begins : Reads reader text first)
    (ends : next first = Pure.pure value) : Reads (reader >>= next) text value := by
  have whole := begins.bind (ends ▸ Reads.pure value)
  rwa [append_nil] at whole

/-- A number of values, one after another. -/
def readMany (count : Nat) (reader : StreamReader U A) : StreamReader U (List A) :=
  match count with
  | 0 => pure []
  | count + 1 => do
    let value ← reader
    let values ← readMany count reader
    pure (value :: values)

theorem Reads.many {write : A → List U} {list : List A}
    (each : ∀ value ∈ list, Reads reader (write value) value) :
    Reads (readMany list.length reader) (list.flatMap write) list := by
  induction list with
  | nil => exact Reads.pure []
  | cons value list ih =>
    rw [flatMap_cons]
    exact (each value mem_cons_self).bind ((ih (forall_mem_cons.mp each).2).last rfl)

end RakudoStar.Foundation
