import Mathlib.Data.List.Basic

/-!
# trans

`Str.trans` hands its changes to a matcher, which keeps the next match between its steps.
Texts are lists of code points. Callables run in a world of their own.
-/

namespace RakudoStar.Text

/-- A regex, by its own leftmost match in a text: where it starts and where it stops. -/
structure RegexKey where
  find : List Nat → Option (Nat × Nat)
  within : ∀ text start stop, find text = some (start, stop) → start ≤ stop ∧ stop ≤ text.length

inductive Key where
  | cool (text : List Nat)
  | regex (key : RegexKey)

inductive Value (W : Type) where
  | text (text : List Nat)
  | callable (call : W → List Nat × W)

structure Substitution (W : Type) where
  key : Key
  value : Value W

/-- The matcher. Nothing resets the substitution and its length between two steps. -/
structure Lsm (W : Type) where
  source : List Nat
  substitutions : List (Substitution W)
  index : Nat
  nextMatch : Nat
  nextSubstitution : Option (Substitution W)
  substitutionLength : Option Nat
  unsubstitutedText : List Nat
  substitutedText : List Nat

variable {W : Type}

/-- `$result ~~ Callable ?? $result() !! $result`. -/
def Value.evaluate : Value W → W → List Nat × W
  | text result, world => (result, world)
  | callable call, world => call world

/-- `substr`, where the start is inside the text. -/
def substr (text : List Nat) (start length : Nat) : List Nat := (text.drop start).take length

def index (text needle : List Nat) (pos : Nat) : Option Nat :=
  if needle = [] then some (min pos text.length)
  else (List.range text.length).find? fun found =>
    decide (pos ≤ found) && needle.isPrefixOf (text.drop found)

namespace Lsm

def new (source : List Nat) (substitutions : List (Substitution W)) : Lsm W where
  source
  substitutions
  index := 0
  nextMatch := 0
  nextSubstitution := none
  substitutionLength := none
  unsubstitutedText := []
  substitutedText := []

/-- An undefined length counts as zero. -/
def compareSubstitution (lsm : Lsm W) (substitution : Substitution W) (pos length : Nat) : Lsm W :=
  if pos < lsm.nextMatch ∨ lsm.nextMatch = pos ∧ lsm.substitutionLength.getD 0 < length then
    { lsm with
      nextMatch := pos
      substitutionLength := some length
      nextSubstitution := some substitution }
  else lsm

def triageSubstitution (lsm : Lsm W) (substitution : Substitution W) : Lsm W :=
  match substitution.key with
  | .regex key =>
    match key.find (lsm.source.drop lsm.index) with
    | none => lsm
    | some (start, stop) =>
      lsm.compareSubstitution substitution (lsm.index + start) (stop - start)
  | .cool text =>
    match Text.index lsm.source text lsm.index with
    | none => lsm
    | some pos => lsm.compareSubstitution substitution pos text.length

/-- A regex is matched once more; a match that has failed has no characters. -/
def incrementIndex (lsm : Lsm W) : Key → Lsm W
  | .regex key =>
    let length := (key.find (lsm.source.drop lsm.index)).elim 0 fun found => found.2 - found.1
    { lsm with index := lsm.nextMatch + length }
  | .cool text => { lsm with index := lsm.nextMatch + text.length }

/-- The method `next_substitution`: whether there is one, and the matcher and the world behind. -/
def step (lsm : Lsm W) (world : W) : Bool × Lsm W × W :=
  let lsm := { lsm with nextMatch := lsm.source.length }
  let lsm := lsm.substitutions.foldl triageSubstitution lsm
  let lsm :=
    { lsm with unsubstitutedText := substr lsm.source lsm.index (lsm.nextMatch - lsm.index) }
  match lsm.nextSubstitution with
  | some substitution =>
    let (text, world) := substitution.value.evaluate world
    let lsm := { lsm with substitutedText := text }.incrementIndex substitution.key
    (decide (lsm.nextMatch < lsm.source.length), lsm, world)
  | none => (decide (lsm.nextMatch < lsm.source.length), lsm, world)

/-- The loop of `trans`, with at most so many rounds. -/
def loop : Nat → Lsm W → W → List Nat → Option (List Nat × W)
  | 0, _, _, _ => none
  | rounds + 1, lsm, world, result =>
    let (more, lsm, world) := lsm.step world
    if more then loop rounds lsm world (result ++ lsm.unsubstitutedText ++ lsm.substitutedText)
    else some (result ++ lsm.unsubstitutedText, world)

end Lsm

/-- The text that a list of substitutions gives, if so many rounds are enough for it. -/
def substitute (rounds : Nat) (source : List Nat) (substitutions : List (Substitution W))
    (world : W) : Option (List Nat × W) :=
  (Lsm.new source substitutions).loop rounds world []

/-- A side of a change: a list, or a text that is taken apart. -/
inductive Side (A : Type) where
  | list (items : List A)
  | text (text : List Nat)

inductive Change (W : Type) where
  | regex (key : RegexKey) (value : Value W)
  | callable (source : Side Key) (call : W → List Nat × W)
  | lists (source : Side Key) (target : Side (Value W))

/-- What `expand` asks of characters and of ranges of texts. -/
structure Expander where
  isWord : Nat → Bool
  range : Nat → Nat → List (List Nat)

namespace Expander

variable (expander : Expander)

/-- The parts of a text: ranges and characters. -/
def comb : List Nat → List (List Nat)
  | a :: 46 :: 46 :: b :: rest =>
    if expander.isWord a && expander.isWord b then expander.range a b ++ comb rest
    else [a] :: comb (46 :: 46 :: b :: rest)
  | a :: rest => [a] :: comb rest
  | [] => []

def expand {A : Type} (take : List Nat → A) : Side A → List A
  | .list items => items
  | .text text => (expander.comb text).map take

/-- The values on the right, often enough for the keys on the left. -/
def targets (count : Nat) (target : List (Value W)) : List (Value W) :=
  if target.isEmpty then List.replicate count (.text [])
  else (List.replicate ((count + target.length - 1) / target.length) target).flatten

def substitutions : Change W → List (Substitution W)
  | .regex key value => [⟨.regex key, value⟩]
  | .callable source call =>
    (expander.expand .cool source).map fun key => ⟨key, .callable call⟩
  | .lists source target =>
    let source := expander.expand .cool source
    List.zipWith (fun key value => ⟨key, value⟩) source
      (targets source.length (expander.expand .text target))

/-- The method `trans`. -/
def trans (rounds : Nat) (source : List Nat) (changes : List (Change W)) (world : W) :
    Option (List Nat × W) :=
  substitute rounds source (changes.flatMap expander.substitutions) world

end Expander

end RakudoStar.Text
