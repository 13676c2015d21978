import RakudoStar.QRegex.Regex

/-!
# Counting captures

`capnames` counts for each name how often it can capture and gives numbers to the captures
without a name.
-/

namespace RakudoStar.QRegex

/-- How names are read as numbers: `after` is one more than a name that is `0` or above. -/
structure Numerals (C : Type) where
  zero : C
  spell : C → Name
  after : Name → Option C
  exceeds : C → C → Bool

/-- The hash of `capnames`, without its entry for the empty name. -/
abbrev Counts := Name → Nat

/-- What `capnames` returns, and the tree with the names it has given. -/
structure Counted (C Node : Type) where
  node : Node
  counts : Counts
  next : C

variable {C : Type} (numerals : Numerals C)

/-- The marks of `<(` and `)>` are no captures. -/
def marks : List Name := ["$!from".toList, "$!to".toList]

def dropMarks (counts : Counts) : Counts := fun name =>
  if name ∈ marks then 0 else counts name

/-- The names that a capture has by itself, and the next positional capture. -/
def ownNames (names : List Name) (count : C) : Counts × C :=
  (fun name => if name ∈ names then 1 else 0,
    names.foldl (fun count name => (numerals.after name).getD count) count)

/-- `%capnames{$_.key} := +%capnames{$_.key} < 2 && %x{$_.key} == 1 ?? 1 !! 2`. -/
def mergeBranch (counts branch : Counts) : Counts := fun name =>
  if branch name = 0 then counts name
  else if counts name < 2 ∧ branch name = 1 then 1 else 2

mutual

def capnames : Regex → C → Counted C Regex
  | .concat nodes, count =>
    let result := capnamesConcat nodes (fun _ => 0) count
    ⟨.concat result.node, dropMarks result.counts, result.next⟩
  | .alt nodes, count =>
    let result := capnamesAlt nodes count (fun _ => 0) count
    ⟨.alt result.node, dropMarks result.counts, result.next⟩
  | .altseq nodes, count =>
    let result := capnamesAlt nodes count (fun _ => 0) count
    ⟨.altseq result.node, dropMarks result.counts, result.next⟩
  | .subrule .capture name, count =>
    let name := if name = [] then numerals.spell count else name
    let own := ownNames numerals (split '=' name) count
    ⟨.subrule .capture name, dropMarks own.1, own.2⟩
  | .subcapture name node, count =>
    let own := ownNames numerals (split ' ' name) count
    let result := capnames node own.2
    ⟨.subcapture name result.node, dropMarks fun name => own.1 name + result.counts name,
      result.next⟩
  | .quant min max backtrack node, count =>
    let result := capnames node count
    ⟨.quant min max backtrack result.node,
      dropMarks fun name => if result.counts name = 0 then 0 else 2, result.next⟩
  | .separated min max backtrack node sep, count =>
    let result := capnames node count
    ⟨.separated min max backtrack result.node sep,
      dropMarks fun name => if result.counts name = 0 then 0 else 2, result.next⟩
  | node, count => ⟨node, fun _ => 0, count⟩

/-- The loop for a `concat`. -/
def capnamesConcat : List Regex → Counts → C → Counted C (List Regex)
  | [], counts, count => ⟨[], counts, count⟩
  | node :: nodes, counts, count =>
    let first := capnames node count
    let rest := capnamesConcat nodes (fun name => counts name + first.counts name) first.next
    ⟨first.node :: rest.node, rest.counts, rest.next⟩

/-- The loop for an `alt` or an `altseq`. -/
def capnamesAlt : List Regex → C → Counts → C → Counted C (List Regex)
  | [], _, counts, max => ⟨[], counts, max⟩
  | node :: nodes, count, counts, max =>
    let first := capnames node count
    let max := if numerals.exceeds first.next max then first.next else max
    let rest := capnamesAlt nodes count (mergeBranch counts first.counts) max
    ⟨first.node :: rest.node, rest.counts, rest.next⟩

end

/-- `caps` of a name: 1 when it begins with a digit, 2 when it may capture again. -/
def caplist (isNumeric : Char → Bool) (counts : Counts) (name : Name) : Nat :=
  if name = [] then 0
  else (if name.head?.any isNumeric then 1 else 0) + (if 1 < counts name then 1 else 0) * 2

end RakudoStar.QRegex

namespace RakudoStar.QRegex

/-- A cursor on the capture stack, with the name it was pushed under. -/
structure Capture (M : Type) where
  name : Option Name
  sub : M
  deriving DecidableEq, Repr

def Capture.names {M : Type} (capture : Capture M) : List Name :=
  match capture.name with
  | none => []
  | some name => split '=' name

def capturesOf {M : Type} (name : Name) (captures : List (Capture M)) : List (Capture M) :=
  captures.filter fun capture => name ∈ capture.names

/-- How often a quantifier may match its atom. -/
def Iterations (min : Nat) (max : Int) (n : Nat) : Prop := min ≤ n ∧ (0 < max → n ≤ max)

/-- `n` matches, with a separator between them. -/
inductive Iterated {A : Type} (node sep : List A → Prop) : Nat → List A → Prop
  | zero : Iterated node sep 0 []
  | one {first} : node first → Iterated node sep 1 first
  | more {n first between rest} : node first → sep between → Iterated node sep (n + 1) rest →
      Iterated node sep (n + 2) (first ++ between ++ rest)

section

variable {M : Type}

mutual

/-- The captures that a match of a regex can push. -/
def path : Regex → List (Capture M) → Prop
  | .concat nodes, captures => pathAll nodes captures
  | .alt nodes, captures => pathAny nodes captures
  | .altseq nodes, captures => pathAny nodes captures
  | .conj nodes _, captures => pathAll nodes captures
  | .quant min max _ node, captures =>
    ∃ n, Iterations min max n ∧ Iterated (path node) (fun between => between = []) n captures
  | .separated min max _ node sep, captures =>
    ∃ n, Iterations min max n ∧ Iterated (path node) (path sep) n captures
  | .subcapture name node, captures =>
    ∃ inner sub, path node inner ∧ captures = inner ++ [⟨some name, sub⟩]
  | .subrule .capture name, captures => ∃ sub, captures = [⟨some name, sub⟩]
  -- without backtracking into the rule, its cursor is not kept
  | .subrule .method _, captures => captures = [] ∨ ∃ sub, captures = [⟨none, sub⟩]
  | _, captures => captures = []

def pathAll : List Regex → List (Capture M) → Prop
  | [], captures => captures = []
  | node :: nodes, captures =>
    ∃ first rest, path node first ∧ pathAll nodes rest ∧ captures = first ++ rest

def pathAny : List Regex → List (Capture M) → Prop
  | [], _ => False
  | node :: nodes, captures => path node captures ∨ pathAny nodes captures

end

end

mutual

/-- A name occurs in a regex outside separators and conjunctions. -/
def occurs (name : Name) : Regex → Prop
  | .concat nodes => occursIn name nodes
  | .alt nodes => occursIn name nodes
  | .altseq nodes => occursIn name nodes
  | .quant _ _ _ node => occurs name node
  | .separated _ _ _ node _ => occurs name node
  | .subcapture own node => name ∈ split ' ' own ∨ occurs name node
  | .subrule .capture own => name ∈ split '=' own
  | _ => False

def occursIn (name : Name) : List Regex → Prop
  | [] => False
  | node :: nodes => occurs name node ∨ occursIn name nodes

end

mutual

/-- A name occurs in a quantified atom or in two places of a sequence. -/
def repeats (name : Name) : Regex → Prop
  | .concat nodes => repeatsAll name nodes
  | .alt nodes => repeatsAny name nodes
  | .altseq nodes => repeatsAny name nodes
  | .quant _ _ _ node => occurs name node
  | .separated _ _ _ node _ => occurs name node
  | .subcapture own node => (name ∈ split ' ' own ∧ occurs name node) ∨ repeats name node
  | _ => False

def repeatsAll (name : Name) : List Regex → Prop
  | [] => False
  | node :: nodes =>
    repeats name node ∨ (occurs name node ∧ occursIn name nodes) ∨ repeatsAll name nodes

def repeatsAny (name : Name) : List Regex → Prop
  | [] => False
  | node :: nodes => repeats name node ∨ repeatsAny name nodes

end

end RakudoStar.QRegex
