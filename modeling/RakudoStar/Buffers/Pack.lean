import RakudoStar.Numeric.ReadBack

/-!
# pack and unpack

Two loops over the units of a template. Both take the amount from its text; `unpack` shifts
the bytes that `pack` has pushed. Texts are lists of code points.
-/

namespace RakudoStar.Buffers

open Bigint Numeric RakudoStar.Except

/-- An item or a field; `any` is a variable that nothing was assigned to. -/
inductive Field where
  | str (codes : List Nat)
  | int (i : Int)
  | any
  deriving DecidableEq, Repr

inductive PackError where
  | directive (directive : Nat)
  | nonASCII (char : Nat)
  /-- Element shifted from empty list. -/
  | emptyList
  | text (failure : TextError)
  /-- A number that is not an `Int`, or no number at all. -/
  | notAnInt
  deriving DecidableEq, Repr

/-- What the two functions ask of numbers and of the character classes. -/
structure Packer (fmt : DigitFormat) (N : Type) where
  reader : Reader fmt N
  /-- Whether `% 2` is true of a number that is not an `Int`. -/
  modTwo : RealNumber N → Bool
  /-- Whether a character behind the Latin ones is a digit. -/
  uIsdigit : Nat → Bool

variable {fmt : DigitFormat} {N : Type} (packer : Packer fmt N)

def isLetter (ch : Nat) : Bool := decide (97 ≤ ch ∧ ch ≤ 122 ∨ 65 ≤ ch ∧ ch ≤ 90)

def Packer.isDigit (ch : Nat) : Bool :=
  if ch < 256 then decide (48 ≤ ch ∧ ch ≤ 57) else packer.uIsdigit ch

/-- The text that `[\d+|'*']?` matches. -/
def Packer.amountText (rest : List Nat) : List Nat :=
  if rest.takeWhile packer.isDigit ≠ [] then rest.takeWhile packer.isDigit
  else if rest.head? = some 42 then [42]
  else []

/-- The units of a template, each a directive and an amount. -/
def Packer.comb : Nat → List Nat → List (Nat × List Nat)
  | 0, _ => []
  | _ + 1, [] => []
  | rounds + 1, ch :: rest =>
    if isLetter ch then
      (ch, packer.amountText rest) :: Packer.comb rounds (rest.drop (packer.amountText rest).length)
    else Packer.comb rounds rest

def Packer.units (template : List Nat) : List (Nat × List Nat) :=
  packer.comb template.length template

/-- A text as a number, where an `Int` is asked for. -/
def Packer.intOf (text : List Nat) : Except PackError Int :=
  match packer.reader.numeric text with
  | .ok (.real (.int i)) => .ok i
  | .ok _ => .error .notAnInt
  | .error failure => .error (.text failure)

def Packer.number : Field → Except PackError Int
  | .int i => .ok i
  | .str codes => packer.intOf codes
  | .any => .error .notAnInt

def textOf : Field → List Nat
  | .int i => intStr i
  | .str codes => codes
  | .any => []

/-- `shift @items // ''`. -/
def shiftText : List Field → List Nat × List Field
  | [] => ([], [])
  | item :: items => (textOf item, items)

/-- `shift(@items)`, as a number. -/
def Packer.shiftNumber : List Field → Except PackError (Int × List Field)
  | [] => .error .emptyList
  | item :: items => do
    let number ← packer.number item
    .ok (number, items)

/-- `infix:«+>»`, which shifts the magnitude. -/
def shiftRight (i : Int) (bits : Nat) : Int := i.tdiv (2 ^ bits)

def Packer.hexOdd (hexstring : List Nat) : Except PackError Bool :=
  match packer.reader.numeric hexstring with
  | .ok (.real (.int i)) => .ok (i % 2 ≠ 0)
  | .ok (.real r) => .ok (packer.modTwo r)
  | .ok (.complex _ _) => .error .notAnInt
  | .error failure => .error (.text failure)

/-- `comb(/../)`. -/
def pairs : List Nat → List (List Nat)
  | a :: b :: rest => [a, b] :: pairs rest
  | _ => []

def Packer.radix16 (text : List Nat) : Except PackError Int :=
  match packer.reader.unbase 16 text with
  | .ok (.real (.int i)) => .ok i
  | .ok _ => .error .notAnInt
  | .error failure => .error (.text failure)

/-- A value for every element of a list. -/
def mapAll {A B : Type} (f : A → Except PackError B) : List A → Except PackError (List B)
  | [] => .ok []
  | a :: rest => do
    let b ← f a
    let later ← mapAll f rest
    .ok (b :: later)

/-- `ord` of a character that has to be ASCII. -/
def asciiCode (char : Nat) : Except PackError Int :=
  if 0x7f < char then .error (.nonASCII char) else .ok char

/-- What a unit pushes, and the items that are left. -/
def Packer.packUnit (directive : Nat) (amount : List Nat) (items : List Field) :
    Except PackError (List Int × List Field) :=
  match Char.ofNat directive with
  | 'A' => do
    let (ascii, items) := shiftText items
    let bytes ← mapAll asciiCode ascii
    if amount ≠ [42] then do
      let amount ← packer.intOf amount
      .ok (bytes ++ List.replicate (amount - ascii.length).toNat 0x20, items)
    else .ok (bytes, items)
  | 'H' => do
    let (hexstring, items) := shiftText items
    let odd ← packer.hexOdd hexstring
    let bytes ← mapAll packer.radix16 (pairs (if odd then hexstring ++ [48] else hexstring))
    .ok (bytes, items)
  | 'C' => do
    let (number, items) ← packer.shiftNumber items
    .ok ([number % 0x100], items)
  | 'S' | 'v' => do
    let (number, items) ← packer.shiftNumber items
    .ok ([number, shiftRight number 0x08].map (· % 0x100), items)
  | 'L' | 'V' => do
    let (number, items) ← packer.shiftNumber items
    .ok ([number, shiftRight number 0x08, shiftRight number 0x10, shiftRight number 0x18].map
      (· % 0x100), items)
  | 'n' => do
    let (number, items) ← packer.shiftNumber items
    .ok ([shiftRight number 0x08, number].map (· % 0x100), items)
  | 'N' => do
    let (number, items) ← packer.shiftNumber items
    .ok ([shiftRight number 0x18, shiftRight number 0x10, shiftRight number 0x08, number].map
      (· % 0x100), items)
  | _ => .error (.directive directive)

def Packer.packUnits : List (Nat × List Nat) → List Field → Except PackError (List Int)
  | [], _ => .ok []
  | (directive, amount) :: units, items => do
    let (bytes, items) ← packer.packUnit directive amount items
    let later ← Packer.packUnits units items
    .ok (bytes ++ later)

/-- `pack`; the buffer keeps a byte of every value. -/
def Packer.pack (template : List Nat) (items : List Field) : Except PackError (List Nat) := do
  let bytes ← packer.packUnits (packer.units template) items
  .ok (bytes.map fun byte => (byte % 0x100).toNat)

def shiftBytes (count : Nat) (bytes : List Nat) : Except PackError (List Nat × List Nat) :=
  if count ≤ bytes.length then .ok (bytes.take count, bytes.drop count) else .error .emptyList

/-- A number from bytes, the one that is shifted first with the first weight. -/
def weighted (weights : List Nat) (bytes : List Nat) :
    Except PackError (List Field × List Nat) := do
  let (shifted, bytes) ← shiftBytes weights.length bytes
  .ok ([.int (List.zipWith (fun byte weight : Nat => byte * 2 ^ weight) shifted weights).sum],
    bytes)

/-- A digit as `fmt('%x')` writes it. -/
def hexDigit (digit : Nat) : Nat := (codes "0123456789abcdef").getD digit 0

/-- A text that was put together in an undefined variable. -/
def collected (text : List Nat) : Field := if text = [] then .any else .str text

/-- The fields of a unit, and the bytes that are left. -/
def Packer.unpackUnit (directive : Nat) (amount : List Nat) (bytes : List Nat) :
    Except PackError (List Field × List Nat) :=
  match Char.ofNat directive with
  | 'A' => do
    let count ← if amount = [42] then .ok (bytes.length : Int) else packer.intOf amount
    let (shifted, bytes) ← shiftBytes count.toNat bytes
    .ok ([collected shifted], bytes)
  | 'H' =>
    .ok ([collected (bytes.flatMap fun byte => [hexDigit (byte / 2 ^ 4), hexDigit (byte % 16)])],
      [])
  | 'x' => do
    let count ←
      if amount = [42] then .ok 0 else if amount = [] then .ok 1 else packer.intOf amount
    .ok ([], bytes.drop count.toNat)
  | 'C' => weighted [0x00] bytes
  | 'S' | 'v' => weighted [0x00, 0x08] bytes
  | 'L' | 'V' => weighted [0x00, 0x08, 0x10, 0x18] bytes
  | 'n' => weighted [0x08, 0x00] bytes
  | 'N' => weighted [0x18, 0x10, 0x08, 0x00] bytes
  | _ => .error (.directive directive)

def Packer.unpackUnits : List (Nat × List Nat) → List Nat → Except PackError (List Field × List Nat)
  | [], bytes => .ok ([], bytes)
  | (directive, amount) :: units, bytes => do
    let (fields, bytes) ← packer.unpackUnit directive amount bytes
    let (later, bytes) ← Packer.unpackUnits units bytes
    .ok (fields ++ later, bytes)

/-- `unpack`, with the bytes that it has not consumed. -/
def Packer.unpack (bytes template : List Nat) : Except PackError (List Field × List Nat) :=
  packer.unpackUnits (packer.units template) bytes

end RakudoStar.Buffers
