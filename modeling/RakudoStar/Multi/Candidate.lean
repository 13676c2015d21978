import RakudoStar.Binder.Signature
import RakudoStar.Foundation.Except

/-!
# Candidates of a multi and their order

`multidispatch.c` extracts what the dispatcher needs of each candidate, compares them pairwise
and sorts them into tied groups, narrowest first.
-/

namespace RakudoStar.Multi

open Binder List

variable {Ty Val Sub : Type} (interp : Interp Ty Val) (params : List (Parameter Ty Val))

/-- What the dispatcher asks of a code object. -/
structure Routines (Ty Val Sub : Type) where
  /-- The signature of the code object. -/
  signature : Sub → List (Parameter Ty Val)
  name : Sub → String
  signaturePerl : Sub → String
  /-- Has the code object a method `default`, and does it return a true value? -/
  isDefault : Sub → Bool

/-- `DEFCON_NONE`, `DEFCON_DEFINED` and `DEFCON_UNDEFINED`. -/
inductive Defcon
  | none
  | defined
  | undefined
  deriving DecidableEq, Repr

/-- The entries of the arrays `types`, `type_flags` and `constraints` for one
parameter. -/
structure TypeSlot (Ty Val : Type) where
  type : Ty
  defcon : Defcon
  native : Option NativeKind
  constraints : Option (List Val)

structure CandidateInfo (Ty Val Sub : Type) where
  sub : Sub
  slots : List (TypeSlot Ty Val)
  numTypes : Nat
  minArity : Nat
  maxArity : Nat
  bindCheck : Bool
  reqNamed : Option String

def slurpyArity : Nat := 1 <<< 30

section

variable (interp : Interp Ty Val)

/-- The entry recorded for a positional parameter. -/
def typeSlot (param : Param Ty Val) : TypeSlot Ty Val where
  type := if param.has .nominalGeneric then interp.any else param.nominalType
  defcon :=
    if param.has .definedOnly then .defined
    else if param.has .undefinedOnly then .undefined
    else .none
  native := param.nativeKinds.head?
  constraints := param.postConstraints

/-- A positional parameter contributes to the arity. -/
def countArity (param : Param Ty Val) (info : CandidateInfo Ty Val Sub) :
    CandidateInfo Ty Val Sub :=
  { info with
    maxArity := info.maxArity + 1
    minArity := if param.has .isOptional then info.minArity else info.minArity + 1 }

def recordType (param : Param Ty Val) (info : CandidateInfo Ty Val Sub) :
    CandidateInfo Ty Val Sub :=
  { info with
    slots := info.slots ++ [typeSlot interp param]
    numTypes := if param.has .multiInvocant then info.numTypes + 1 else info.numTypes
    bindCheck := info.bindCheck || param.has .nominalGeneric || param.postConstraints.isSome }

/-- A named parameter needs no type info, but a bindability check. -/
def recordNamed (param : Param Ty Val) (names : List String)
    (info : CandidateInfo Ty Val Sub) : CandidateInfo Ty Val Sub :=
  { info with
    bindCheck := true
    reqNamed :=
      if !param.has .isOptional && names.length = 1 then names.head? else info.reqNamed }

/-- The walk over the parameters of a candidate. -/
def analyseParams : List (Parameter Ty Val) → CandidateInfo Ty Val Sub → CandidateInfo Ty Val Sub
  | [], info => info
  | parameter :: rest, info =>
    let param := parameter.param
    match param.namedNames with
    | some names => analyseParams rest (recordNamed param names info)
    | none =>
      let info := { info with
        bindCheck := info.bindCheck || parameter.subLlsig.isSome }
      if param.has .slurpyNamed then
        info
      else if param.has .slurpyPos || param.has .isCapture then
        { info with maxArity := slurpyArity }
      else
        analyseParams rest (recordType interp param (countArity param info))

/-- The information collected about a candidate. -/
def candidateInfo (routines : Routines Ty Val Sub) (sub : Sub) : CandidateInfo Ty Val Sub :=
  analyseParams interp (routines.signature sub)
    { sub, slots := [], numTypes := 0, minArity := 0, maxArity := 0,
      bindCheck := false, reqNamed := none }

end

section

variable [DecidableEq Ty] (interp : Interp Ty Val)

/-- How an entry of one candidate compares to that of another. -/
inductive Comparison
  | narrower
  | tied
  | wider
  deriving DecidableEq, Repr

/-- Analyse one parameter of two candidates. -/
def compareSlots (a b : TypeSlot Ty Val) : Comparison :=
  if a.type = b.type then
    match a.constraints, b.constraints with
    | some _, none => .narrower
    | none, some _ => .wider
    | _, _ => .tied
  else if a.native.isSome && b.native.isNone then
    .narrower
  else if b.native.isSome && a.native.isNone then
    .wider
  else if interp.typeCheck a.type false b.type then
    .narrower
  else if interp.typeCheck b.type false a.type then
    .wider
  else
    .tied

/-- Compare the first entries, then slurpiness, then the need for a bind check. -/
def isNarrowerTypes (a b : CandidateInfo Ty Val Sub) (typesToCheck : Nat) : Bool :=
  let comparisons :=
    ((a.slots.zip b.slots).take typesToCheck).map fun (x, y) => compareSlots interp x y
  let narrower := comparisons.count .narrower
  let tied := comparisons.count .tied
  if narrower ≥ 1 ∧ narrower + tied = typesToCheck then
    true
  else if tied ≠ typesToCheck then
    false
  else if a.maxArity ≠ slurpyArity ∧ b.maxArity = slurpyArity then
    true
  else
    !decide (b.maxArity ≠ slurpyArity ∧ a.maxArity = slurpyArity) && (a.bindCheck && !b.bindCheck)

def isNarrower (a b : CandidateInfo Ty Val Sub) : Bool :=
  if a.numTypes = b.numTypes then
    isNarrowerTypes interp a b a.numTypes
  else if a.minArity = b.minArity then
    isNarrowerTypes interp a b (min a.numTypes b.numTypes)
  else
    decide (a.maxArity ≠ slurpyArity ∧ b.maxArity = slurpyArity)

end

/-- `Rakudo_md_candidate_graph_node`; the edges are indices into the graph. -/
structure GraphNode (Ty Val Sub : Type) where
  info : Option (CandidateInfo Ty Val Sub)
  edges : List Nat
  edgesIn : Int

def edgeRemovalTodo : Int := -1

def edgeRemoved : Int := -2

namespace GraphNode

def removeIncoming (node : GraphNode Ty Val Sub) : GraphNode Ty Val Sub :=
  { node with edgesIn := node.edgesIn - 1 }

def markRemoved (node : GraphNode Ty Val Sub) : GraphNode Ty Val Sub :=
  { node with edgesIn := edgeRemoved }

/-- A node whose information has gone to the results. -/
def take (node : GraphNode Ty Val Sub) : GraphNode Ty Val Sub :=
  { node with info := none, edgesIn := edgeRemovalTodo }

end GraphNode

/-- The sorted candidates: a null pointer after each tied group, and to the end. -/
abbrev CandidateList (Ty Val Sub : Type) := List (Option (CandidateInfo Ty Val Sub))

section

/-- A node for each candidate, with the edges from it to wider ones. -/
def buildGraph [DecidableEq Ty] (interp : Interp Ty Val)
    (infos : List (CandidateInfo Ty Val Sub)) : List (GraphNode Ty Val Sub) :=
  infos.mapIdx fun i info =>
    let others (test : CandidateInfo Ty Val Sub → Bool) : List Nat :=
      (infos.zipIdx.filter fun (other, j) => i ≠ j && test other).map Prod.snd
    { info := some info
      edges := others fun other => isNarrower interp info other
      edgesIn := (others fun other => isNarrower interp other info).length }

/-- Find the nodes that have no incoming edges. -/
def freeInfos (graph : List (GraphNode Ty Val Sub)) : CandidateList Ty Val Sub :=
  (graph.filter fun node => node.edgesIn = 0).map GraphNode.info

def takeFree (graph : List (GraphNode Ty Val Sub)) : List (GraphNode Ty Val Sub) :=
  graph.map fun node => if node.edgesIn = 0 then node.take else node

def removeEdgesOf (graph : List (GraphNode Ty Val Sub)) (i : Nat) : List (GraphNode Ty Val Sub) :=
  match graph[i]? with
  | none => graph
  | some node =>
    if node.edgesIn = edgeRemovalTodo then
      (node.edges.foldl (fun graph j => graph.modify j GraphNode.removeIncoming)
        graph).modify i GraphNode.markRemoved
    else
      graph

def removeEdges (graph : List (GraphNode Ty Val Sub)) : List (GraphNode Ty Val Sub) :=
  (List.range graph.length).foldl removeEdgesOf graph

/-- The rounds of the topological sort, at most one for each candidate and a failing one. -/
def sortRounds : Nat → Nat → List (GraphNode Ty Val Sub) → CandidateList Ty Val Sub →
    Except Exception (CandidateList Ty Val Sub)
  | _, 0, _, result => .ok result
  | 0, _ + 1, _, _ => .error ⟨"Circularity detected in multi sub types."⟩
  | rounds + 1, candidatesToSort, graph, result =>
    let free := freeInfos graph
    if free.isEmpty then
      .error ⟨"Circularity detected in multi sub types."⟩
    else
      -- This is the end of a tied group, so leave a gap.
      sortRounds rounds (candidatesToSort - free.length)
        (removeEdges (takeFree graph)) (result ++ free ++ [none])

/-- `sort_candidates`. The result array is allocated for the worst case. -/
def sortCandidates [DecidableEq Ty] (interp : Interp Ty Val)
    (routines : Routines Ty Val Sub) (candidates : List Sub) :
    Except Exception (CandidateList Ty Val Sub) := do
  let graph := buildGraph interp (candidates.map (candidateInfo interp routines))
  let sorted ← sortRounds candidates.length candidates.length graph []
  .ok (sorted ++ List.replicate (2 * candidates.length + 2 - sorted.length) none)

end

/-- A required named parameter always comes with a bindability check. -/
def CandidateInfo.NamedChecked (info : CandidateInfo Ty Val Sub) : Prop :=
  info.reqNamed.isSome → info.bindCheck = true

theorem analyseParams_namedChecked (info : CandidateInfo Ty Val Sub)
    (checked : info.NamedChecked) : (analyseParams interp params info).NamedChecked := by
  induction params generalizing info with
  | nil => exact checked
  | cons parameter rest ih =>
    unfold analyseParams
    dsimp only
    split
    · exact ih _ fun _ => rfl
    split
    · intro required
      simp [checked required]
    split
    · intro required
      simp [checked required]
    · refine ih _ fun required => ?_
      simp [recordType, countArity, checked required]

theorem candidateInfo_namedChecked (routines : Routines Ty Val Sub) (sub : Sub) :
    (candidateInfo interp routines sub).NamedChecked :=
  analyseParams_namedChecked interp _ _ fun required => by simp at required

theorem analyseParams_sub (info : CandidateInfo Ty Val Sub) :
    (analyseParams interp params info).sub = info.sub := by
  induction params generalizing info with
  | nil => rfl
  | cons parameter rest ih =>
    unfold analyseParams
    dsimp only
    split
    · rw [ih]
      rfl
    split
    · rfl
    split
    · rfl
    · rw [ih]
      rfl

@[simp]
theorem candidateInfo_sub (routines : Routines Ty Val Sub)
    (sub : Sub) : (candidateInfo interp routines sub).sub = sub :=
  analyseParams_sub interp _ _

theorem modify_map_info (graph : List (GraphNode Ty Val Sub)) (i : Nat)
    {f : GraphNode Ty Val Sub → GraphNode Ty Val Sub} (keeps : ∀ node, (f node).info = node.info) :
    (graph.modify i f).map GraphNode.info = graph.map GraphNode.info := by
  induction graph generalizing i with
  | nil => simp
  | cons node rest ih =>
    cases i with
    | zero => simp [keeps]
    | succ i => simp [ih]

theorem foldl_removeIncoming_map_info (edges : List Nat) (graph : List (GraphNode Ty Val Sub)) :
    (edges.foldl (fun graph j => graph.modify j GraphNode.removeIncoming)
      graph).map GraphNode.info = graph.map GraphNode.info := by
  induction edges generalizing graph with
  | nil => rfl
  | cons j edges ih =>
    rw [foldl_cons, ih]
    exact modify_map_info graph j fun _ => rfl

theorem removeEdgesOf_map_info (graph : List (GraphNode Ty Val Sub)) (i : Nat) :
    (removeEdgesOf graph i).map GraphNode.info = graph.map GraphNode.info := by
  unfold removeEdgesOf
  split
  · rfl
  split
  · rw [@modify_map_info _ _ _ _ _ GraphNode.markRemoved fun _ => rfl,
      foldl_removeIncoming_map_info]
  · rfl

theorem removeEdges_map_info (graph : List (GraphNode Ty Val Sub)) :
    (removeEdges graph).map GraphNode.info = graph.map GraphNode.info := by
  unfold removeEdges
  generalize range graph.length = indices
  induction indices generalizing graph with
  | nil => rfl
  | cons i indices ih =>
    rw [foldl_cons, ih, removeEdgesOf_map_info]

variable {info : CandidateInfo Ty Val Sub} {graph : List (GraphNode Ty Val Sub)}
  {sorted : CandidateList Ty Val Sub}

theorem mem_takeFree_info (mem : some info ∈ (takeFree graph).map GraphNode.info) :
    some info ∈ graph.map GraphNode.info := by
  simp only [takeFree, map_map, mem_map, Function.comp_apply] at mem ⊢
  rcases mem with ⟨node, inGraph, isInfo⟩
  split at isInfo
  · cases isInfo
  · exact ⟨node, inGraph, isInfo⟩

theorem sortRounds_mem {rounds candidatesToSort : Nat} {result : CandidateList Ty Val Sub}
    (sorts : sortRounds rounds candidatesToSort graph result = .ok sorted)
    (mem : some info ∈ sorted) : some info ∈ result ∨ some info ∈ graph.map GraphNode.info := by
  induction rounds generalizing candidatesToSort graph result with
  | zero =>
    cases candidatesToSort with
    | zero =>
      cases sorts
      exact .inl mem
    | succ candidatesToSort => cases sorts
  | succ rounds ih =>
    cases candidatesToSort with
    | zero =>
      cases sorts
      exact .inl mem
    | succ candidatesToSort =>
      simp only [sortRounds] at sorts
      split at sorts
      · cases sorts
      rcases ih sorts with inResult | inGraph
      · rcases mem_append.mp inResult with before | gap
        · rcases mem_append.mp before with before | free
          · exact .inl before
          · rcases mem_map.mp free with ⟨node, isFree, isInfo⟩
            exact .inr (mem_map.mpr ⟨node, (mem_filter.mp isFree).1, isInfo⟩)
        · simp at gap
      · rw [removeEdges_map_info] at inGraph
        exact .inr (mem_takeFree_info inGraph)

theorem mem_sortCandidates [DecidableEq Ty] {interp : Interp Ty Val}
    {routines : Routines Ty Val Sub} {candidates : List Sub}
    (sorts : sortCandidates interp routines candidates = .ok sorted)
    (mem : some info ∈ sorted) : ∃ sub ∈ candidates, info = candidateInfo interp routines sub := by
  rcases Except.of_bind sorts with ⟨groups, rounds, padded⟩
  cases padded
  rcases mem_append.mp mem with inGroups | padding
  · rcases sortRounds_mem rounds inGroups with impossible | inGraph
    · simp at impossible
    rcases mem_map.mp inGraph with ⟨node, inGraph, isInfo⟩
    rcases mem_mapIdx.mp inGraph with ⟨i, bound, rfl⟩
    cases isInfo
    rw [length_map] at bound
    exact ⟨candidates[i], getElem_mem bound, getElem_map _⟩
  · simp at padding

end RakudoStar.Multi
