import RakudoStar.Foundation.Dominance

/-!
# Control-flow graphs

`build_cfg`, `compute_dominators`, `compute_dominance_frontiers` and `find_loops`. A unit has
`m + 1` basic blocks, which are known by their index in `bb_list`; a `Set` is a set of such indices.
-/

namespace RakudoStar.Imcc

open Foundation

/-- Where the last instruction of a block, or its first `invoke`, goes. -/
inductive BranchTo (m : Nat) where
  | nowhere
  | label (target : Option (Fin (m + 1)))
  | loopToBegin

/-- What `build_cfg` looks at: an ending `goto`, an addressed label, and where it goes. -/
structure BasicBlock (m : Nat) where
  goto : Bool
  setAddr : Bool
  branch : BranchTo m

/-- `bb_list[0]`, where a unit is entered. -/
abbrev firstBlock (m : Nat) : Fin (m + 1) := 0

structure Edge (m : Nat) where
  source : Fin (m + 1)
  target : Fin (m + 1)
  deriving DecidableEq

section

variable {m : Nat}

/-- `bb->pred_list`: `bb_add_edge` puts every edge in front, here as in `edge_list`. -/
def predList (edges : List (Edge m)) (bb : Fin (m + 1)) : List (Edge m) :=
  edges.filter fun edge => edge.target = bb

def succList (edges : List (Edge m)) (bb : Fin (m + 1)) : List (Edge m) :=
  edges.filter fun edge => edge.source = bb

def blocksAreConnected (edges : List (Edge m)) (source target : Fin (m + 1)) : Bool :=
  (predList edges target).any fun edge => edge.source = source

def bbAddEdge (edges : List (Edge m)) (source target : Fin (m + 1)) : List (Edge m) :=
  if blocksAreConnected edges source target then edges else ⟨source, target⟩ :: edges

/-- The edges that the loop of `build_cfg` adds at a block, with the block before it. -/
def addBlockEdges (bb : Fin (m + 1) → BasicBlock m) (edges : List (Edge m))
    (last : Option (Fin (m + 1))) (i : Fin (m + 1)) : List (Edge m) :=
  let edges := match last with
    | some last => if (bb last).goto then edges else bbAddEdge edges last i
    | none => edges
  let edges := if (bb i).setAddr then bbAddEdge (bbAddEdge edges 0 i) (Fin.last m) i else edges
  match (bb i).branch with
  | .nowhere => edges
  | .label none => edges
  | .label (some target) => bbAddEdge edges i target
  | .loopToBegin => bbAddEdge edges i 0

/-- All indices, in ascending order. -/
def indices (m : Nat) : List (Fin (m + 1)) := List.finRange (m + 1)

def addEdges (bb : Fin (m + 1) → BasicBlock m) : List (Edge m) :=
  ((indices m).foldl (fun (state : List (Edge m) × Option (Fin (m + 1))) i =>
    (addBlockEdges bb state.1 state.2 i, some i)) ([], none)).1

/-- A block without predecessors loses all its successor edges. -/
def decouple (edges : List (Edge m)) (j : Fin (m + 1)) : List (Edge m) :=
  if predList edges j = [] then edges.filter fun edge => edge.source ≠ j else edges

/-- One round over all blocks but the first one. -/
def decoupleRound (edges : List (Edge m)) : List (Edge m) := (indices m).tail.foldl decouple edges

/-- Rounds until nothing changes. -/
def decoupleLoop : Nat → List (Edge m) → Option (List (Edge m))
  | 0, _ => none
  | rounds + 1, edges =>
    let next := decoupleRound edges
    if next.length < edges.length then decoupleLoop rounds next else some next

/-- `build_cfg`; every round but the last one removes an edge. -/
def buildCfg (bb : Fin (m + 1) → BasicBlock m) : Option (List (Edge m)) :=
  decoupleLoop ((addEdges bb).length + 1) (addEdges bb)

/-- A set for every block. -/
abbrev Sets (m : Nat) : Type := Fin (m + 1) → Finset (Fin (m + 1))

def initialDominators (edges : List (Edge m)) : Sets m := fun i =>
  if i = 0 then {0} else if predList edges i = [] then {i} else Finset.univ

/-- The intersection with the dominators of all predecessors, and the block itself. -/
def meetPredecessors (edges : List (Edge m)) (dominators : Sets m) (i : Fin (m + 1)) :
    Finset (Fin (m + 1)) :=
  insert i ((predList edges i).foldl (fun s edge => s ∩ dominators edge.source) (dominators i))

/-- The body of the loop over the blocks, with the flag `change`. -/
def dominatorStep (edges : List (Edge m)) (state : Sets m × Bool) (i : Fin (m + 1)) :
    Sets m × Bool :=
  let s := meetPredecessors edges state.1 i
  if state.1 i = s then state else (Function.update state.1 i s, true)

def dominatorRound (edges : List (Edge m)) (dominators : Sets m) : Sets m × Bool :=
  (indices m).tail.foldl (dominatorStep edges) (dominators, false)

def dominatorLoop (edges : List (Edge m)) : Nat → Sets m → Option (Sets m)
  | 0, _ => none
  | rounds + 1, dominators =>
    let next := dominatorRound edges dominators
    if next.2 then dominatorLoop edges rounds next.1 else some next.1

/-- `wrong`: a dominator of the block, other than it and `i`, is dominated by `i`. -/
def isWrong (dominators : Sets m) (b i : Fin (m + 1)) : Bool :=
  (indices m).reverse.any fun runner =>
    runner ≠ b ∧ runner ≠ i ∧ runner ∈ dominators b ∧ i ∈ dominators runner

/-- The search for the immediate dominator, from the last index down. -/
def searchIdom (dominators : Sets m) (b : Fin (m + 1)) : Fin (m + 1) :=
  ((indices m).tail.reverse.find? fun i =>
    i ≠ b ∧ i ∈ dominators b ∧ isWrong dominators b i = false).getD 0

def idomsOf (dominators : Sets m) : Fin (m + 1) → Fin (m + 1) := fun b =>
  if b = 0 then 0 else searchIdom dominators b

/-- The dominators of `compute_dominators`; every round but the last one makes a set smaller. -/
def computeDominators (edges : List (Edge m)) : Option (Sets m) :=
  dominatorLoop edges ((m + 1) * (m + 1) + 1) (initialDominators edges)

/-- The loop from a predecessor upwards; the runner may become 0 and then -1. -/
def walkUp (idoms : Fin (m + 1) → Fin (m + 1)) (b : Fin (m + 1)) :
    Nat → Fin (m + 1) → Sets m → Option (Sets m)
  | 0, _, _ => none
  | steps + 1, runner, frontiers =>
    if runner = idoms b then some frontiers
    else if b ∈ frontiers runner then some frontiers
    else
      let frontiers := Function.update frontiers runner (insert b (frontiers runner))
      if runner = 0 then some frontiers else walkUp idoms b steps (idoms runner) frontiers

/-- All predecessors of a block that has at least two of them. -/
def frontiersAt (edges : List (Edge m)) (idoms : Fin (m + 1) → Fin (m + 1)) (frontiers : Sets m)
    (b : Fin (m + 1)) : Option (Sets m) :=
  if (predList edges b).length < 2 then some frontiers
  else (predList edges b).foldlM
    (fun frontiers edge => walkUp idoms b (m + 2) edge.source frontiers) frontiers

/-- `compute_dominance_frontiers`; no walk visits a block twice. -/
def computeDominanceFrontiers (edges : List (Edge m)) (idoms : Fin (m + 1) → Fin (m + 1)) :
    Option (Sets m) :=
  (indices m).tail.foldlM (frontiersAt edges idoms) fun _ => ∅

/-- `Loop_info`; there is no preheader where the code has -1. -/
structure LoopInfo (m : Nat) where
  loop : Finset (Fin (m + 1))
  exits : Finset (Fin (m + 1))
  depth : Nat
  header : Fin (m + 1)
  preheader : Option (Fin (m + 1))
  size : Nat

/-- `bb->loop_depth`, one more. -/
def deepen (depths : Fin (m + 1) → Nat) (bb : Fin (m + 1)) : Fin (m + 1) → Nat :=
  Function.update depths bb (depths bb + 1)

/-- `search_predecessors_not_in`, with the depths of the blocks. -/
def searchPredecessorsNotIn (edges : List (Edge m)) :
    Nat → Fin (m + 1) → Finset (Fin (m + 1)) × (Fin (m + 1) → Nat) →
      Option (Finset (Fin (m + 1)) × (Fin (m + 1) → Nat))
  | 0, _, _ => none
  | calls + 1, node, state =>
    (predList edges node).foldlM (fun state edge =>
      if edge.source ∈ state.1 then some state
      else searchPredecessorsNotIn edges calls edge.source
        (insert edge.source state.1, deepen state.2 edge.source)) state

/-- The block has one successor edge, to the header. -/
def onlyJumps (edges : List (Edge m)) (bb header : Fin (m + 1)) : Bool :=
  match succList edges bb with
  | [edge] => edge.target = header
  | _ => false

/-- The loop of `natural_preheader`, with the preheader found so far. -/
def preheaderLoop (edges : List (Edge m)) (loop : Finset (Fin (m + 1))) (header : Fin (m + 1)) :
    List (Edge m) → Option (Fin (m + 1)) → Option (Fin (m + 1))
  | [], preheader => preheader
  | edge :: rest, preheader =>
    if edge.source ∈ loop then preheaderLoop edges loop header rest preheader
    else if preheader = none ∧ onlyJumps edges edge.source header then
      preheaderLoop edges loop header rest (some edge.source)
    else none

def naturalPreheader (edges : List (Edge m)) (loop : Finset (Fin (m + 1)))
    (header : Fin (m + 1)) : Option (Fin (m + 1)) :=
  preheaderLoop edges loop header (predList edges header) none

/-- The blocks of the loop, from index 1 on, with a successor outside. -/
def exitsOf (edges : List (Edge m)) (loop : Finset (Fin (m + 1))) : Finset (Fin (m + 1)) :=
  (indices m).tail.foldl (fun exits i =>
    if i ∈ loop ∧ (succList edges i).any (fun edge => edge.target ∉ loop) then insert i exits
    else exits) ∅

/-- `unit->loop_info` and the depths of the blocks. -/
structure Marked (m : Nat) where
  loops : List (LoopInfo m)
  depths : Fin (m + 1) → Nat

def markLoop (edges : List (Edge m)) (marked : Marked m) (e : Edge m) : Option (Marked m) := do
  let loop := insert e.target {e.source}
  let depths := deepen marked.depths e.source
  let (loop, depths) ←
    if e.target = e.source then some (loop, depths)
    else searchPredecessorsNotIn edges (m + 2) e.source (loop, deepen depths e.target)
  some ⟨marked.loops ++ [⟨loop, exitsOf edges loop, depths e.source, e.target,
    naturalPreheader edges loop e.target, 0⟩], depths⟩

/-- The successor edges of all blocks. -/
def allEdges (edges : List (Edge m)) : List (Edge m) := (indices m).flatMap (succList edges)

def markEdge (edges : List (Edge m)) (dominators : Sets m) (marked : Marked m) (e : Edge m) :
    Option (Marked m) :=
  if e.target ∈ dominators e.source then markLoop edges marked e else some marked

/-- One round of the sorting, with the flag `changed`. -/
def sortRound : List (LoopInfo m) → List (LoopInfo m) × Bool
  | [] => ([], false)
  | [li] => ([li], false)
  | li :: next :: rest =>
    if li.size < next.size then (next :: (sortRound (li :: rest)).1, true)
    else (li :: (sortRound (next :: rest)).1, (sortRound (next :: rest)).2)

def sortLoop : Nat → List (LoopInfo m) → Option (List (LoopInfo m))
  | 0, _ => none
  | rounds + 1, loops =>
    if (sortRound loops).2 then sortLoop rounds (sortRound loops).1 else some (sortRound loops).1

/-- The depth of every loop but the last one becomes 1, and that of all later ones one more. -/
def setDepths : List (LoopInfo m) → List (LoopInfo m)
  | [] => []
  | [li] => [li]
  | li :: next :: rest =>
    { li with depth := 1 } :: setDepths ((next :: rest).map fun other =>
      { other with depth := 1 + 1 })
termination_by loops => loops.length

def sortLoops (loops : List (LoopInfo m)) : Option (List (LoopInfo m)) :=
  (sortLoop (loops.length * loops.length + 1)
    (loops.map fun li => { li with size := li.loop.card })).map setDepths

def findLoops (edges : List (Edge m)) (dominators : Sets m) : Option (List (LoopInfo m)) := do
  let marked ← (allEdges edges).foldlM (markEdge edges dominators) ⟨[], fun _ => 0⟩
  sortLoops marked.loops

end

end RakudoStar.Imcc
