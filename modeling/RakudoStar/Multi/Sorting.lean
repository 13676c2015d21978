import RakudoStar.Multi.Candidate
import RakudoStar.Foundation.Layers

/-!
# The sorted candidate list

The topological sort of `sort_candidates` keeps the number of edges into a node, and in the same
field whether it has gone. Its rounds take off layers.
-/

namespace RakudoStar.Multi

open Foundation List

variable {Ty Val Sub : Type}

section

variable [DecidableEq Ty] (interp : Interp Ty Val) (infos : List (CandidateInfo Ty Val Sub))

/-- The candidate at one place is narrower than that at another. -/
def narrowerAt (i j : Nat) : Bool :=
  i ≠ j && (infos[i]?.any fun info => infos[j]?.any fun other => isNarrower interp info other)

variable {interp infos}

omit [DecidableEq Ty] in
theorem zipIdx_filter_map (test : Nat → CandidateInfo Ty Val Sub → Bool)
    (infos : List (CandidateInfo Ty Val Sub)) (start : Nat) :
    ((infos.zipIdx start).filter fun (other, j) => test j other).map Prod.snd =
      (range' start infos.length).filter fun j =>
        infos[j - start]?.any fun other => test j other := by
  induction infos generalizing start with
  | nil => rfl
  | cons info infos ih =>
    have rest := ih (start + 1)
    have shifted : (range' (start + 1) infos.length).filter (fun j =>
          infos[j - (start + 1)]?.any fun other => test j other) =
        (range' (start + 1) infos.length).filter fun j =>
          (info :: infos)[j - start]?.any fun other => test j other := by
      apply filter_congr
      intro j inRange
      have bound := (mem_range'_1.mp inRange).1
      rw [show j - start = j - (start + 1) + 1 by omega, getElem?_cons_succ]
    rw [zipIdx_cons, length_cons, range'_succ, filter_cons, filter_cons]
    simp only [Nat.sub_self, getElem?_cons_zero, Option.any_some]
    split
    · rw [map_cons, rest, shifted]
    · rw [rest, shifted]

theorem buildGraph_getElem? (i : Nat) : (buildGraph interp infos)[i]? = infos[i]?.map fun info =>
      { info := some info
        edges := (range infos.length).filter (narrowerAt interp infos i)
        edgesIn := ((range infos.length).countP fun j => narrowerAt interp infos j i : Nat) } := by
  rw [buildGraph, getElem?_mapIdx]
  cases present : infos[i]? with
  | none => rfl
  | some info =>
    have outgoing := zipIdx_filter_map
      (fun j other => decide (i ≠ j) && isNarrower interp info other) infos 0
    have incoming := zipIdx_filter_map
      (fun j other => decide (i ≠ j) && isNarrower interp other info) infos 0
    simp only [Option.map_some, Option.some.injEq, GraphNode.mk.injEq, true_and]
    rw [outgoing, incoming, ← range_eq_range', ← countP_eq_length_filter]
    constructor
    · apply filter_congr
      intro j _
      cases other : infos[j]? <;> simp [narrowerAt, present, other]
    congr 1
    apply countP_congr
    intro j _
    cases other : infos[j]? <;> simp [narrowerAt, present, other, ne_comm (a := i) (b := j)]

end

section

variable [DecidableEq Ty] {interp : Interp Ty Val} {infos : List (CandidateInfo Ty Val Sub)}
  {graph : List (GraphNode Ty Val Sub)} {removed taken : Nat → Bool}

variable (interp infos) in
/-- The count of edges into a node, in the middle of a round. -/
def expectedEdgesIn (removed taken processed : Nat → Bool) (k : Nat) : Int :=
  if removed k || processed k then edgeRemoved
  else if taken k then edgeRemovalTodo
  else pending (narrowerAt interp infos) infos.length
    (fun other => removed other || processed other) k

variable (interp infos) in
/-- The graph in the course of the sort. -/
structure GraphState (graph : List (GraphNode Ty Val Sub)) (removed taken processed : Nat → Bool) :
    Prop where
  size : graph.length = infos.length
  node : ∀ k info, infos[k]? = some info → graph[k]? = some
    ({ info := if removed k || taken k then none else some info
       edges := (List.range infos.length).filter (narrowerAt interp infos k)
       edgesIn := expectedEdgesIn interp infos removed taken processed k } : GraphNode Ty Val Sub)

variable (interp infos) in
/-- What comes before a node that has gone has gone. -/
def ClosedBefore (removed : Nat → Bool) : Prop :=
  ∀ i j, i < infos.length → narrowerAt interp infos i j = true → removed j = true → removed i = true

variable (interp infos) in
/-- The places of the candidates that no candidate left is narrower than. -/
abbrev nextGroup (removed : Nat → Bool) : List Nat :=
  layer (narrowerAt interp infos) infos.length removed

theorem buildGraph_state : GraphState interp infos (buildGraph interp infos)
    (fun _ => false) (fun _ => false) (fun _ => false) where
  size := by simp [buildGraph]
  node k info present := by
    rw [buildGraph_getElem?, present]
    simp [expectedEdgesIn, pending]

theorem expectedEdgesIn_eq_zero {k : Nat} :
    expectedEdgesIn interp infos removed (fun _ => false) (fun _ => false) k = 0 ↔
      removed k = false ∧ pending (narrowerAt interp infos) infos.length removed k = 0 := by
  cases gone : removed k with
  | true => simp [expectedEdgesIn, gone, edgeRemoved]
  | false => simp [expectedEdgesIn, gone]

theorem edgesIn_zero_iff {k : Nat} {info : CandidateInfo Ty Val Sub}
    (present : infos[k]? = some info) :
    expectedEdgesIn interp infos removed (fun _ => false) (fun _ => false) k = 0 ↔
      k ∈ nextGroup interp infos removed := by
  have bound : k < infos.length := (List.getElem?_eq_some_iff.mp present).1
  rw [expectedEdgesIn_eq_zero, mem_layer, mem_left, ← pending_eq_zero]
  simp [bound]

theorem takeFree_state
    (state : GraphState interp infos graph removed (fun _ => false) (fun _ => false)) :
    GraphState interp infos (takeFree graph) removed
      (fun k => (nextGroup interp infos removed).contains k) (fun _ => false) where
  size := by simpa [takeFree] using state.size
  node k info present := by
    rw [takeFree, getElem?_map, state.node k info present]
    by_cases free : k ∈ nextGroup interp infos removed
    · have isLeft := (mem_left.mp (mem_layer.mp free).1).2
      have zero := (@edgesIn_zero_iff _ _ _ _ interp _ _ _ _ present).mpr free
      simp only [Option.map_some, zero, if_true]
      simp [GraphNode.take, expectedEdgesIn, isLeft, free]
    have nonzero := mt (@edgesIn_zero_iff _ _ _ _ interp _ _ _ _ present).mp free
    simp only [Option.map_some, nonzero, if_false]
    simp [expectedEdgesIn, free]

omit [DecidableEq Ty] in
theorem foldl_removeIncoming_length (edges : List Nat) (graph : List (GraphNode Ty Val Sub)) :
    (edges.foldl (fun graph j => graph.modify j GraphNode.removeIncoming) graph).length =
      graph.length := by
  induction edges generalizing graph with
  | nil => rfl
  | cons j edges ih =>
    rw [foldl_cons, ih, length_modify]

omit [DecidableEq Ty] in
theorem foldl_removeIncoming_getElem? (edges : List Nat) (graph : List (GraphNode Ty Val Sub))
    (k : Nat) : (edges.foldl (fun graph j => graph.modify j GraphNode.removeIncoming) graph)[k]? =
      graph[k]?.map fun node => { node with edgesIn := node.edgesIn - (edges.count k : Nat) } := by
  induction edges generalizing graph with
  | nil =>
    rw [foldl_nil]
    cases graph[k]? with
    | none => rfl
    | some node => simp
  | cons j edges ih =>
    rw [foldl_cons, ih, getElem?_modify]
    cases graph[k]? with
    | none => rfl
    | some node =>
      by_cases same : j = k
      · subst same
        simp [GraphNode.removeIncoming]
        omega
      · simp [same]

/-- What is taken in a round is left before it, and what comes before it has
gone. -/
structure Takes (interp : Interp Ty Val) (infos : List (CandidateInfo Ty Val Sub))
    (removed taken : Nat → Bool) : Prop where
  left : ∀ k, taken k = true → removed k = false
  before : ∀ i k, i < infos.length → narrowerAt interp infos i k = true → taken k = true →
    removed i = true

/-- The nodes whose edges have been removed before a place. -/
def processedBefore (taken : Nat → Bool) (bound : Nat) : Nat → Bool :=
  fun k => taken k && decide (k < bound)

theorem processedBefore_succ (taken : Nat → Bool) (i k : Nat) :
    processedBefore taken (i + 1) k = (processedBefore taken i k || (taken i && k == i)) := by
  unfold processedBefore
  by_cases same : k = i
  · subst same
    cases taken k <;> simp
  have step : decide (k < i + 1) = decide (k < i) := by
    rw [decide_eq_decide]
    omega
  rw [step]
  simp [same]

theorem removeEdgesOf_state (takes : Takes interp infos removed taken)
    (closed : ClosedBefore interp infos removed) {i : Nat} (bound : i < infos.length)
    (state : GraphState interp infos graph removed taken (processedBefore taken i)) :
    GraphState interp infos (removeEdgesOf graph i) removed taken
      (processedBefore taken (i + 1)) := by
  have here := state.node i infos[i] (getElem?_eq_getElem bound)
  have notProcessed : processedBefore taken i i = false := by simp [processedBefore]
  cases isTaken : taken i with
  | false =>
    -- Only a node that is taken counts as still to do.
    have waits : expectedEdgesIn interp infos removed taken (processedBefore taken i) i ≠
        edgeRemovalTodo := by
      unfold expectedEdgesIn
      rw [notProcessed, isTaken, Bool.or_false]
      cases removed i with
      | true => simp [edgeRemoved, edgeRemovalTodo]
      | false =>
        simp only [Bool.false_eq_true, if_false, edgeRemovalTodo]
        omega
    have unchanged : removeEdgesOf graph i = graph := by
      rw [removeEdgesOf, here]
      exact if_neg waits
    have same : processedBefore taken (i + 1) = processedBefore taken i := by
      funext k
      rw [processedBefore_succ, isTaken, Bool.false_and, Bool.or_false]
    rw [unchanged, same]
    exact state
  | true =>
    have isLeft := takes.left i isTaken
    have todo : expectedEdgesIn interp infos removed taken (processedBefore taken i) i =
        edgeRemovalTodo := by
      unfold expectedEdgesIn
      rw [notProcessed, isTaken, isLeft]
      rfl
    have changed : removeEdgesOf graph i =
        (((range infos.length).filter (narrowerAt interp infos i)).foldl
          (fun graph j => graph.modify j GraphNode.removeIncoming) graph).modify i
            GraphNode.markRemoved := by
      rw [removeEdgesOf, here]
      exact if_pos todo
    constructor
    · rw [changed, length_modify, foldl_removeIncoming_length]
      exact state.size
    intro k info present
    have kBound := (List.getElem?_eq_some_iff.mp present).1
    rw [changed, getElem?_modify, foldl_removeIncoming_getElem?, state.node k info present]
    simp only [Option.map_some, Option.map_eq_map, Option.some.injEq]
    have nodup : ((range infos.length).filter (narrowerAt interp infos i)).Nodup :=
      nodup_range.filter _
    have count : ((range infos.length).filter (narrowerAt interp infos i)).count k =
        if narrowerAt interp infos i k then 1 else 0 := by
      rw [nodup.count]
      simp [kBound]
    rw [count]
    by_cases same : i = k
    · subst same
      rw [if_pos rfl]
      simp [GraphNode.markRemoved, expectedEdgesIn, processedBefore, isTaken]
    have later : (k == i) = false := beq_eq_false_iff_ne.mpr (Ne.symm same)
    have processedEq : processedBefore taken (i + 1) k = processedBefore taken i k := by
      rw [processedBefore_succ, later, Bool.and_false, Bool.or_false]
    rw [if_neg same]
    simp only [GraphNode.mk.injEq, true_and]
    unfold expectedEdgesIn
    rw [processedEq]
    -- A node that has gone or is taken has no edge from one that was left.
    have noEdge : removed k || taken k → narrowerAt interp infos i k = false := by
      intro gone
      rw [Bool.eq_false_iff]
      intro edge
      have iGone : removed i = true := by
        rcases Bool.or_eq_true_iff.mp gone with kRemoved | kTaken
        · exact closed i k bound edge kRemoved
        · exact takes.before i k bound edge kTaken
      rw [isLeft] at iGone
      cases iGone
    by_cases gone : removed k || processedBefore taken i k
    · rw [if_pos gone, if_pos gone, noEdge]
      · rfl
      rcases Bool.or_eq_true_iff.mp gone with kRemoved | kProcessed
      · simp [kRemoved]
      · simp only [processedBefore, Bool.and_eq_true] at kProcessed
        simp [kProcessed.1]
    rw [if_neg gone, if_neg gone]
    by_cases kTaken : taken k = true
    · rw [if_pos kTaken, if_pos kTaken, noEdge (by simp [kTaken])]
      rfl
    rw [if_neg kTaken, if_neg kTaken]
    have notGone : (removed i || processedBefore taken i i) = false := by
      rw [isLeft, notProcessed]
      rfl
    have step := @pending_remove (narrowerAt interp infos) infos.length
      (fun other => removed other || processedBefore taken i other) i bound notGone k
    have next : (fun other => removed other || processedBefore taken (i + 1) other) =
        fun other => removed other || processedBefore taken i other || other == i := by
      funext other
      rw [processedBefore_succ, isTaken, Bool.true_and, Bool.or_assoc]
    rw [next, step]
    split <;> simp

theorem removeEdges_state (takes : Takes interp infos removed taken)
    (closed : ClosedBefore interp infos removed)
    (state : GraphState interp infos graph removed taken (fun _ => false)) :
    GraphState interp infos (removeEdges graph) removed taken
      (processedBefore taken infos.length) := by
  have upTo : ∀ bound, bound ≤ infos.length →
      GraphState interp infos ((range bound).foldl removeEdgesOf graph) removed taken
        (processedBefore taken bound) := by
    intro bound
    induction bound with
    | zero =>
      intro _
      have none : processedBefore taken 0 = fun _ => false := by
        funext k
        simp [processedBefore]
      rw [none]
      exact state
    | succ bound ih =>
      intro within
      rw [range_succ, foldl_append]
      exact removeEdgesOf_state takes closed within (ih (by omega))
  rw [removeEdges, state.size]
  exact upTo infos.length le_rfl

theorem takes_layer : Takes interp infos removed fun k =>
    (nextGroup interp infos removed).contains k where
  left _ taken := (mem_left.mp (mem_layer.mp (contains_iff_mem.mp taken)).1).2
  before i _ bound edge taken := (mem_layer.mp (contains_iff_mem.mp taken)).2 i bound edge

theorem round_state (closed : ClosedBefore interp infos removed)
    (state : GraphState interp infos graph removed (fun _ => false) (fun _ => false)) :
    GraphState interp infos (removeEdges (takeFree graph))
        (withoutLayer removed (nextGroup interp infos removed))
        (fun _ => false) (fun _ => false) ∧ ClosedBefore interp infos
        (withoutLayer removed (nextGroup interp infos removed)) := by
  constructor
  · have after := removeEdges_state takes_layer closed (takeFree_state state)
    refine ⟨after.size, ?_⟩
    intro k info present
    have bound := (List.getElem?_eq_some_iff.mp present).1
    rw [after.node k info present]
    have processed : ∀ other, other < infos.length → processedBefore
        (fun k => (nextGroup interp infos removed).contains k)
        infos.length other = (nextGroup interp infos removed).contains other := by
      intro other otherBound
      simp [processedBefore, otherBound]
    have pendingEq : pending (narrowerAt interp infos) infos.length
          (fun other => removed other || processedBefore
            (fun k => (nextGroup interp infos removed).contains k) infos.length other) k =
        pending (narrowerAt interp infos) infos.length
          (fun other => withoutLayer removed
            (nextGroup interp infos removed) other || false) k := by
      apply countP_congr
      intro other inRange
      dsimp only
      rw [processed other (mem_range.mp inRange), withoutLayer, Bool.or_false]
    simp only [expectedEdgesIn, pendingEq, processed k bound, withoutLayer, Bool.or_false,
      Bool.false_eq_true, if_false]
    cases removed k <;> cases (nextGroup interp infos removed).contains k <;> rfl
  · intro i j bound edge gone
    rcases Bool.or_eq_true_iff.mp gone with before | inLayer
    · simp [withoutLayer, closed i j bound edge before]
    · simp [withoutLayer, takes_layer.before i j bound edge inLayer]

theorem freeInfos_eq
    (state : GraphState interp infos graph removed (fun _ => false) (fun _ => false)) :
    freeInfos graph = (nextGroup interp infos removed).map fun k => infos[k]? := by
  have indexed : graph = (range infos.length).map fun k =>
      { info := if removed k then none else infos[k]?
        edges := (range infos.length).filter (narrowerAt interp infos k)
        edgesIn := expectedEdgesIn interp infos removed (fun _ => false) (fun _ => false) k } := by
    apply ext_getElem?
    intro k
    rw [getElem?_map]
    cases present : infos[k]? with
    | none =>
      have beyond := getElem?_eq_none_iff.mp present
      rw [getElem?_eq_none (by rw [state.size]; exact beyond),
        getElem?_eq_none (by rw [length_range]; exact beyond)]
      rfl
    | some info =>
      have bound := (List.getElem?_eq_some_iff.mp present).1
      rw [state.node k info present, getElem?_range bound]
      simp [present]
  have free : (range infos.length).filter (fun k => decide
        (expectedEdgesIn interp infos removed (fun _ => false) (fun _ => false) k = 0)) =
      nextGroup interp infos removed := by
    apply filter_congr
    intro k _
    rw [Bool.eq_iff_iff, decide_eq_true_eq, expectedEdgesIn_eq_zero]
    simp
  rw [freeInfos, indexed, filter_map, map_map]
  have shape : (fun node : GraphNode Ty Val Sub => decide (node.edgesIn = 0)) ∘ (fun k =>
      ({ info := if removed k then none else infos[k]?
         edges := (range infos.length).filter (narrowerAt interp infos k)
         edgesIn := expectedEdgesIn interp infos removed (fun _ => false) (fun _ => false) k } :
        GraphNode Ty Val Sub)) = fun k => decide
      (expectedEdgesIn interp infos removed (fun _ => false) (fun _ => false) k = 0) := rfl
  rw [shape, free]
  apply map_congr_left
  intro k inLayer
  have isLeft := (mem_left.mp (mem_layer.mp inLayer).1).2
  simp [isLeft]

variable (infos) in
/-- The results that layers of places stand for. -/
def groupsAt (layers : List (List Nat)) : CandidateList Ty Val Sub :=
  layers.flatMap fun group => (group.map fun k => infos[k]?) ++ [none]

theorem sortRounds_layers {rounds candidatesToSort : Nat} {result : CandidateList Ty Val Sub}
    (closed : ClosedBefore interp infos removed)
    (state : GraphState interp infos graph removed (fun _ => false) (fun _ => false))
    (size : (left infos.length removed).length = candidatesToSort)
    (enough : candidatesToSort ≤ rounds) :
    (∃ layers, Layers (narrowerAt interp infos) infos.length removed layers ∧
        sortRounds rounds candidatesToSort graph result = .ok (result ++ groupsAt infos layers)) ∨
      (sortRounds rounds candidatesToSort graph result =
          .error ⟨"Circularity detected in multi sub types."⟩ ∧
        ∀ layers, ¬Layers (narrowerAt interp infos) infos.length removed layers) := by
  induction rounds generalizing candidatesToSort graph removed result with
  | zero =>
    have none : candidatesToSort = 0 := by omega
    subst none
    left
    refine ⟨[], .done (length_eq_zero_iff.mp size), ?_⟩
    simp [sortRounds, groupsAt]
  | succ rounds ih =>
    cases candidatesToSort with
    | zero =>
      left
      refine ⟨[], .done (length_eq_zero_iff.mp size), ?_⟩
      simp [sortRounds, groupsAt]
    | succ candidatesToSort =>
      simp only [sortRounds]
      rw [freeInfos_eq state]
      by_cases empty : nextGroup interp infos removed = []
      · right
        rw [empty]
        apply And.intro rfl
        intro layers sorted
        cases sorted with
        | done none =>
          rw [none] at size
          cases size
        | more nonempty _ => exact nonempty empty
      have parts : (nextGroup interp infos removed).length +
          (left infos.length (withoutLayer removed
            (nextGroup interp infos removed))).length = candidatesToSort + 1 := by
        rw [← length_append, ← size]
        exact layer_append_left_perm.length_eq
      have positive := length_pos_of_ne_nil empty
      have notEmpty : ((nextGroup interp infos removed).map fun k => infos[k]?).isEmpty =
          false := by
        rw [isEmpty_eq_false_iff]
        simpa using empty
      rw [notEmpty, length_map]
      rcases round_state closed state with ⟨next, nextClosed⟩
      have fewer : (left infos.length (withoutLayer removed
          (nextGroup interp infos removed))).length =
          candidatesToSort + 1 - (nextGroup interp infos removed).length := by
        omega
      rcases ih nextClosed next fewer (by omega) with
        ⟨layers, rest, ends⟩ | ⟨dies, none⟩
      · left
        refine ⟨_, .more empty rest, ?_⟩
        simp only [Bool.false_eq_true, if_false]
        rw [ends]
        simp [groupsAt]
      right
      simp only [Bool.false_eq_true, if_false]
      apply And.intro dies
      intro layers sorted
      cases sorted with
      | done none =>
        rw [none] at size
        cases size
      | more _ rest => exact none _ rest

end

end RakudoStar.Multi
