import Mathlib.Data.List.Basic
import RakudoStar.Foundation.Except

/-!
# Texts over a variable-length code

A word code spells every valid symbol as a nonempty word of units; a cursor reads a symbol and
moves by one. Any number of moves lands on a boundary, and a text spells one list of symbols.
-/

namespace RakudoStar.Foundation

open List

variable {ε S U : Type}

/-- Every valid symbol is spelled by a nonempty word. -/
structure WordCode (S U : Type) where
  Valid : S → Prop
  spell : S → List U
  spell_ne_nil : ∀ {s}, Valid s → spell s ≠ []

namespace WordCode

variable (code : WordCode S U)

/-- The text that spells a list of symbols. -/
def text (symbols : List S) : List U := symbols.flatMap code.spell

/-- The position before symbol number `k`. -/
def boundary (symbols : List S) (k : Nat) : Nat := (code.text (symbols.take k)).length

/-- A list of valid symbols. -/
def AllValid (symbols : List S) : Prop := ∀ s ∈ symbols, code.Valid s

@[simp]
theorem text_nil : code.text [] = [] := rfl

@[simp]
theorem text_cons (s : S) (symbols : List S) :
    code.text (s :: symbols) = code.spell s ++ code.text symbols := rfl

theorem text_append (left right : List S) :
    code.text (left ++ right) = code.text left ++ code.text right := flatMap_append

@[simp]
theorem boundary_zero (symbols : List S) : code.boundary symbols 0 = 0 := rfl

theorem boundary_length (symbols : List S) :
    code.boundary symbols symbols.length = (code.text symbols).length := by
  rw [boundary, take_length]

variable {code} {symbols : List S} {k : Nat}

theorem AllValid.tail {s : S} (valid : code.AllValid (s :: symbols)) :
    code.AllValid symbols := (forall_mem_cons.mp valid).2

theorem text_eq_around (inside : k < symbols.length) :
    code.text symbols = code.text (symbols.take k) ++ code.spell symbols[k] ++
        code.text (symbols.drop (k + 1)) := by
  calc
    code.text symbols = code.text (symbols.take k ++ symbols.drop k) := by
        rw [take_append_drop]
    _ = _ := by
        rw [drop_eq_getElem_cons inside, text_append, text_cons, append_assoc]

theorem boundary_succ (inside : k < symbols.length) : code.boundary symbols (k + 1) =
      code.boundary symbols k + (code.spell symbols[k]).length := by
  have split : symbols.take (k + 1) = symbols.take k ++ [symbols[k]] :=
    take_succ_eq_append_getElem inside
  rw [boundary, split, text_append, length_append, text_cons, text_nil, append_nil]
  rfl

theorem boundary_le_length (symbols : List S) (k : Nat) :
    code.boundary symbols k ≤ (code.text symbols).length := by
  have split := congrArg (fun list => (code.text list).length) (take_append_drop k symbols)
  simp only [text_append, length_append] at split
  rw [boundary]
  omega

theorem take_boundary (symbols : List S) (k : Nat) :
    (code.text symbols).take (code.boundary symbols k) = code.text (symbols.take k) := by
  have whole : code.text symbols = code.text (symbols.take k) ++ code.text (symbols.drop k) := by
    rw [← text_append, take_append_drop]
  rw [boundary, whole, take_left]

theorem drop_boundary (symbols : List S) (k : Nat) :
    (code.text symbols).drop (code.boundary symbols k) = code.text (symbols.drop k) := by
  have whole : code.text symbols = code.text (symbols.take k) ++ code.text (symbols.drop k) := by
    rw [← text_append, take_append_drop]
  rw [boundary, whole, drop_left]

theorem text_ne_nil {s : S} (valid : code.Valid s) : code.text (s :: symbols) ≠ [] := by
  rw [text_cons]
  intro empty
  exact code.spell_ne_nil valid (append_eq_nil_iff.mp empty).1

theorem length_le_text (valid : code.AllValid symbols) :
    symbols.length ≤ (code.text symbols).length := by
  induction symbols with
  | nil => exact Nat.zero_le _
  | cons s symbols ih =>
    have longer := length_pos_of_ne_nil (code.spell_ne_nil (valid s mem_cons_self))
    have rest := ih valid.tail
    rw [text_cons, length_append, length_cons]
    omega

end WordCode

/-- Doing a step `n` times. -/
def times (step : Nat → Except ε Nat) : Nat → Nat → Except ε Nat
  | 0, position => .ok position
  | n + 1, position => do
    let position ← step position
    times step n position

/-- Reading and moving over the texts of a code. The laws hold in any surroundings. -/
structure Cursor (ε : Type) (code : WordCode S U) where
  get : List U → Nat → Except ε S
  next : List U → Nat → Except ε Nat
  prev : List U → Nat → Except ε Nat
  get_spell : ∀ (before after : List U) {s : S}, code.Valid s →
    get (before ++ code.spell s ++ after) before.length = .ok s
  next_spell : ∀ (before after : List U) {s : S}, code.Valid s →
    next (before ++ code.spell s ++ after) before.length =
      .ok (before.length + (code.spell s).length)
  prev_spell : ∀ (before after : List U) {s : S}, code.Valid s →
    prev (before ++ code.spell s ++ after) (before.length + (code.spell s).length) =
      .ok before.length

namespace Cursor

variable {code : WordCode S U} (cursor : Cursor ε code) {symbols : List S} {s : S}
  (before after : List U)

section
variable (valid : code.AllValid symbols) {k n : Nat}
include valid

theorem get_boundary (inside : k < symbols.length) :
    cursor.get (code.text symbols) (code.boundary symbols k) = .ok symbols[k] := by
  rw [WordCode.text_eq_around inside]
  exact cursor.get_spell _ _ (valid _ (getElem_mem inside))

theorem next_boundary (inside : k < symbols.length) :
    cursor.next (code.text symbols) (code.boundary symbols k) =
      .ok (code.boundary symbols (k + 1)) := by
  rw [WordCode.boundary_succ inside, WordCode.text_eq_around inside]
  exact cursor.next_spell _ _ (valid _ (getElem_mem inside))

theorem prev_boundary (inside : k < symbols.length) :
    cursor.prev (code.text symbols) (code.boundary symbols (k + 1)) =
      .ok (code.boundary symbols k) := by
  rw [WordCode.boundary_succ inside, WordCode.text_eq_around inside]
  exact cursor.prev_spell _ _ (valid _ (getElem_mem inside))

/-- Moving forward by `n` symbols. -/
def forward (units : List U) (position n : Nat) : Except ε Nat :=
  times (cursor.next units) n position

/-- Moving back by `n` symbols. -/
def backward (units : List U) (position n : Nat) : Except ε Nat :=
  times (cursor.prev units) n position

theorem forward_boundary (inside : k + n ≤ symbols.length) :
    cursor.forward (code.text symbols) (code.boundary symbols k) n =
      .ok (code.boundary symbols (k + n)) := by
  rw [forward]
  induction n generalizing k with
  | zero => rfl
  | succ n ih =>
    rw [times, cursor.next_boundary valid (by omega), Except.ok_bind,
      ih (by omega), Nat.add_right_comm k 1 n]
    rfl

theorem backward_boundary (inside : k + n ≤ symbols.length) :
    cursor.backward (code.text symbols) (code.boundary symbols (k + n)) n =
      .ok (code.boundary symbols k) := by
  rw [backward]
  induction n with
  | zero => rfl
  | succ n ih =>
    have last : k + (n + 1) = (k + n) + 1 := rfl
    rw [times, last, cursor.prev_boundary valid (by omega), Except.ok_bind, ih (by omega)]

end

theorem forward_spell (valid : code.Valid s) :
    cursor.forward (before ++ code.spell s ++ after) before.length 1 =
      .ok (before.length + (code.spell s).length) := by
  rw [forward, times, cursor.next_spell before after valid]
  rfl

theorem backward_spell (valid : code.Valid s) : cursor.backward (before ++ code.spell s ++ after)
        (before.length + (code.spell s).length) 1 = .ok before.length := by
  rw [backward, times, cursor.prev_spell before after valid]
  rfl

include cursor in
theorem spell_inj {left right : S} (validLeft : code.Valid left) (validRight : code.Valid right)
    {leftRest rightRest : List U}
    (same : code.spell left ++ leftRest = code.spell right ++ rightRest) : left = right := by
  have readLeft := cursor.get_spell [] leftRest validLeft
  have readRight := cursor.get_spell [] rightRest validRight
  rw [nil_append] at readLeft readRight
  rw [same, readRight] at readLeft
  exact (Except.ok.inj readLeft).symm

end Cursor

end RakudoStar.Foundation
