/-!
# Regex trees

The trees that the regex compiler works on, and the names of their captures.
-/

namespace RakudoStar.QRegex

abbrev Name := List Char

instance : LawfulBEq Name := List.instLawfulBEq

inductive Anchor where
  | bos
  | eos
  | bol
  | eol
  | lwb
  | rwb
  | fail
  | pass
  deriving DecidableEq, Repr

/-- The subtypes of `cclass`; `newline` is `n` and `nl` the one that takes a CR LF pair. -/
inductive CharClass where
  | any
  | numeric
  | whitespace
  | word
  | newline
  | nl
  deriving DecidableEq, Repr

inductive Backtrack where
  | greedy
  | frugal
  | ratchet
  deriving DecidableEq, Repr

inductive Subtype where
  | capture
  | method
  | zerowidth
  deriving DecidableEq, Repr

/-- `QAST::Regex`, by `rxtype`. A quantifier has one or two children, the atom and the
separator. -/
inductive Regex where
  | literal (text : List Char) (ignorecase negate : Bool)
  | cclass (subtype : CharClass) (negate : Bool)
  | enumcharlist (chars : List Char) (negate zerowidth : Bool)
  | anchor (subtype : Anchor)
  | concat (nodes : List Regex)
  | alt (nodes : List Regex)
  | altseq (nodes : List Regex)
  | conj (nodes : List Regex) (zerowidth : Bool)
  | quant (min : Nat) (max : Int) (backtrack : Backtrack) (node : Regex)
  | separated (min : Nat) (max : Int) (backtrack : Backtrack) (node sep : Regex)
  | subcapture (name : Name) (node : Regex)
  | subrule (subtype : Subtype) (name : Name)
  deriving Repr

def split (delimiter : Char) : List Char → List Name
  | [] => [[]]
  | c :: text =>
    if c = delimiter then [] :: split delimiter text
    else
      match split delimiter text with
      | [] => [[c]]
      | word :: words => (c :: word) :: words

end RakudoStar.QRegex
