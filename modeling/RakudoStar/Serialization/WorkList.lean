import RakudoStar.Serialization.Rows

/-!
# The whole serialization

Every step keeps the tables, lists and graph consistent. The loop ends because what is reachable
is finite; everything reachable is then in its list and has its row.
-/

namespace RakudoStar.Serialization

open Foundation List RakudoStar.Except

/-- Not in another context beforehand; of code, only closures in no context. -/
def Roots.Walked (roots : Roots) : Node → Prop
  | .code code => roots.scOfCode code = none
  | node => roots.scOf node = none ∨ roots.scOf node = some roots.sc

/-- What references lead to from the root sets, through everything that is not in
another context. -/
inductive Reachable (world : World) (roots : Roots) : Node → Prop
  | stable (st : STable) : st ∈ roots.stables → Reachable world roots (.stable st)
  | object (obj : Obj) : obj ∈ roots.objects → Reachable world roots (.object obj)
  | step (node other : Node) : Reachable world roots node → roots.Walked node →
      other ∈ world.references node → Reachable world roots other

/-- The root sets list everything once and own it. -/
structure Roots.WellFormed (roots : Roots) : Prop where
  stablesOnce : roots.stables.Nodup
  objectsOnce : roots.objects.Nodup
  stablesOwned : ∀ st ∈ roots.stables, roots.scOfStable st = some roots.sc
  objectsOwned : ∀ obj ∈ roots.objects, roots.scOfObject obj = some roots.sc

namespace Writer

/-- The node has its row. -/
def Processed (w : Writer) : Node → Prop
  | .stable st => st ∈ w.stablesList.take w.stablesTable.length
  | .object obj => obj ∈ w.objectsList.take w.objectsTable.length
  | .context ctx => ctx ∈ w.contextsList.take w.contextsTable.length
  | .code _ => False

/-- The node is the next of its list to get a row. -/
def Next (w : Writer) : Node → Prop
  | .stable st => w.stablesList[w.stablesTable.length]? = some st
  | .object obj => w.objectsList[w.objectsTable.length]? = some obj
  | .context ctx => w.contextsList[w.contextsTable.length]? = some ctx
  | .code _ => False

end Writer

structure Consistent (world : World) (roots : Roots) (w : Writer) : Prop where
  grown : Grown (Writer.start roots) w
  ledger : Ledger world roots w
  sound : Sound world w
  stablesInside : w.stablesTable.length ≤ w.stablesList.length
  objectsInside : w.objectsTable.length ≤ w.objectsList.length
  contextsInside : w.contextsTable.length ≤ w.contextsList.length
  processed : ∀ node, w.Processed node → ∀ other ∈ world.references node, w.Settled other
  rows : Bounded world w → Rows world w
  reached : ∀ node, w.Queued node → Reachable world roots node

section

variable {world : World} {roots : Roots} {w before after : Writer} {node : Node} {count : Nat}
  {α : Type}

theorem Ledger.walked (ledger : Ledger world roots w) (queued : w.Queued node) :
    roots.Walked node := by
  have walked : roots.scOf node = none ∨ roots.scOf node = some roots.sc := by
    cases known : roots.scOf node with
    | none => exact .inl rfl
    | some sc =>
      right
      have owned := ledger.owned node queued
      rw [ledger.kept node sc known, ledger.sc] at owned
      exact owned
  cases node with
  | stable | object => exact walked
  | code code => exact absurd queued id
  | context ctx => exact walked

theorem Ledger.listed (ledger : Ledger world roots w) (settled : w.Settled node)
    (own : roots.scOf node = none ∨ roots.scOf node = some roots.sc) : w.Listed node := by
  obtain ⟨sc, isIn, listed⟩ := settled
  apply listed
  rcases own with free | known
  · rcases ledger.claimed node free with nowhere | here
    · rw [isIn] at nowhere
      cases nowhere
    rw [isIn] at here
    cases here
    rfl
  · rw [ledger.kept node roots.sc known] at isIn
    cases isIn
    exact ledger.sc.symm

theorem take_of_pre {list longer : List α} (pre : list <+: longer) (inside : count ≤ list.length) :
    longer.take count = list.take count := by
  obtain ⟨tail, rfl⟩ := pre
  exact take_append_of_le_length inside

theorem mem_take_step {list longer : List α} {entry next : α}
    (pre : list <+: longer) (known : list[count]? = some next)
    (member : entry ∈ longer.take (count + 1)) : entry ∈ list.take count ∨ entry = next := by
  have inside := lt_length_of_getElem? known
  rw [take_of_pre pre inside, take_add_one, known, Option.toList_some,
    mem_append, mem_singleton] at member
  exact member

theorem Writer.Next.queued (next : w.Next node) : w.Queued node := by
  cases node with
  | stable st | object obj => exact mem_of_getElem? next
  | code code => exact next
  | context ctx => exact mem_of_getElem? next

theorem Serializes.processed {other : Node}
    (step : Serializes world roots before after node) (next : before.Next node)
    (consistent : Consistent world roots before) (processed : after.Processed other) :
    before.Processed other ∨ other = node := by
  have grown := step.discovers.grown
  cases other with
  | code code => exact absurd processed id
  | stable st =>
    rw [Writer.Processed, step.stableRows] at processed
    cases node with
    | stable expected =>
      rcases mem_take_step grown.stables next processed with earlier | same
      · exact .inl earlier
      · exact .inr (congrArg Node.stable same)
    | object | code | context =>
      change st ∈ after.stablesList.take before.stablesTable.length at processed
      rw [take_of_pre grown.stables consistent.stablesInside] at processed
      exact .inl processed
  | object obj =>
    rw [Writer.Processed, step.objectRows] at processed
    cases node with
    | object expected =>
      rcases mem_take_step grown.objects next processed with earlier | same
      · exact .inl earlier
      · exact .inr (congrArg Node.object same)
    | stable | code | context =>
      change obj ∈ after.objectsList.take before.objectsTable.length at processed
      rw [take_of_pre grown.objects consistent.objectsInside] at processed
      exact .inl processed
  | context ctx =>
    rw [Writer.Processed, step.contextRows] at processed
    cases node with
    | context expected =>
      rcases mem_take_step grown.contexts next processed with earlier | same
      · exact .inl earlier
      · exact .inr (congrArg Node.context same)
    | stable | object | code =>
      change ctx ∈ after.contextsList.take before.contextsTable.length at processed
      rw [take_of_pre grown.contexts consistent.contextsInside] at processed
      exact .inl processed

theorem inside_step {list longer : List Nat} {rows : Nat} (pre : list <+: longer)
    (inside : count ≤ list.length)
    (next : rows = 0 ∨ rows = 1 ∧ ∃ entry, list[count]? = some entry) :
    count + rows ≤ longer.length := by
  have grown := pre.length_le
  rcases next with none | ⟨one, entry, known⟩
  · omega
  · have room := lt_length_of_getElem? known
    omega

/-- One step keeps everything consistent. -/
theorem Serializes.consistent (step : Serializes world roots before after node)
    (next : before.Next node) (consistent : Consistent world roots before) :
    Consistent world roots after := by
  have grown := step.discovers.grown
  have reachable := consistent.reached node next.queued
  have walked := consistent.ledger.walked next.queued
  constructor
  · exact consistent.grown.trans grown
  · exact step.discovers.ledger consistent.ledger
  · exact step.sound consistent.sound
  · rw [step.stableRows]
    apply inside_step grown.stables consistent.stablesInside
    cases node with
    | stable st => exact .inr ⟨rfl, st, next⟩
    | object | code | context => exact .inl rfl
  · rw [step.objectRows]
    apply inside_step grown.objects consistent.objectsInside
    cases node with
    | object obj => exact .inr ⟨rfl, obj, next⟩
    | stable | code | context => exact .inl rfl
  · rw [step.contextRows]
    apply inside_step grown.contexts consistent.contextsInside
    cases node with
    | context ctx => exact .inr ⟨rfl, ctx, next⟩
    | stable | object | code => exact .inl rfl
  · intro other processed target member
    rcases step.processed next consistent processed with earlier | same
    · exact step.discovers.settled_of (consistent.processed other earlier target member)
    · rw [same] at member
      exact step.discovers.settled target member
  · intro bounded
    exact step.rows consistent.sound bounded (consistent.rows (bounded.of_grown grown))
  · apply step.discovers.within consistent.ledger (Reachable world roots)
    · intro code free reached other member
      exact Reachable.step _ other reached free member
    · intro other member
      exact Reachable.step node other reachable walked member
    · exact consistent.reached

end

/-- The writer is consistent with the given numbers of rows. -/
structure At (world : World) (roots : Roots) (stables objects contexts : Nat) (w : Writer) :
    Prop where
  consistent : Consistent world roots w
  stables : w.stablesTable.length = stables
  objects : w.objectsTable.length = objects
  contexts : w.contextsTable.length = contexts

/-- What every step of a drained list keeps, the whole drain keeps. -/
theorem drain_run {invariant : Nat → Writer → Prop} {listOf : Writer → List Nat}
    {serializeOne : Writer → Nat → Except Fault Writer}
    (step : ∀ {pos : Nat} {w after : Writer} {thing : Nat}, invariant pos w →
      (listOf w)[pos]? = some thing → serializeOne w thing = .ok after → invariant (pos + 1) after)
    {count pos : Nat} {w after : Writer} (start : invariant pos w)
    (run : drain listOf serializeOne count pos w = .ok after) : invariant (pos + count) after := by
  induction count generalizing pos w with
  | zero =>
    cases run
    exact start
  | succ count ih =>
    rw [drain] at run
    split at run
    · cases run
    rename_i thing known
    obtain ⟨middle, oneRun, run⟩ := of_bind run
    rw [← Nat.add_assoc, Nat.add_right_comm]
    exact ih (step start known oneRun) run

section

variable {world : World} {roots : Roots} (fits : world.Fits)
  {stables objects contexts count : Nat} {w after : Writer} {work reached : Work}
  {graph : List Node}

include fits

theorem drain_stables (start : At world roots stables objects contexts w)
    (run : drain Writer.stablesList (Writer.serializeStable world) count stables w = .ok after) :
    At world roots (stables + count) objects contexts after := by
  apply @drain_run (fun pos w => At world roots pos objects contexts w) _ _ _ _ _ _ _ start run
  intro pos w after st here known oneRun
  have next : w.stablesList[w.stablesTable.length]? = some st := here.stables ▸ known
  have step := @serializeStable_serializes world roots _ _ fits st next oneRun
  constructor
  · exact step.consistent next here.consistent
  · exact step.stableRows.trans (congrArg (· + 1) here.stables)
  · exact step.objectRows.trans here.objects
  · exact step.contextRows.trans here.contexts

theorem drain_objects (start : At world roots stables objects contexts w)
    (run : drain Writer.objectsList (Writer.serializeObject world) count objects w = .ok after) :
    At world roots stables (objects + count) contexts after := by
  apply @drain_run (fun pos w => At world roots stables pos contexts w) _ _ _ _ _ _ _ start run
  intro pos w after obj here known oneRun
  have next : w.objectsList[w.objectsTable.length]? = some obj := here.objects ▸ known
  have step := @serializeObject_serializes world roots _ _ fits obj next oneRun
  constructor
  · exact step.consistent next here.consistent
  · exact step.stableRows.trans here.stables
  · exact step.objectRows.trans (congrArg (· + 1) here.objects)
  · exact step.contextRows.trans here.contexts

theorem drain_contexts (start : At world roots stables objects contexts w)
    (run : drain Writer.contextsList (Writer.serializeContext world) count contexts w = .ok after) :
    At world roots stables objects (contexts + count) after := by
  apply @drain_run (fun pos w => At world roots stables objects pos w) _ _ _ _ _ _ _ start run
  intro pos w after ctx here known oneRun
  have next : w.contextsList[w.contextsTable.length]? = some ctx := here.contexts ▸ known
  have step := @serializeContext_serializes world roots _ _ fits ctx next oneRun
  constructor
  · exact step.consistent next here.consistent
  · exact step.stableRows.trans here.stables
  · exact step.objectRows.trans here.objects
  · exact step.contextRows.trans (congrArg (· + 1) here.contexts)

/-- The positions are the numbers of rows. -/
def Work.Here (world : World) (roots : Roots) (work : Work) : Prop :=
  At world roots work.stablesPos work.objectsPos work.contextsPos work.writer

/-- The things that have rows. -/
def Work.done (work : Work) : Nat := work.stablesPos + work.objectsPos + work.contextsPos

/-- Every entry of the work lists has its row. -/
structure AllDone (w : Writer) : Prop where
  stables : w.stablesTable.length = w.stablesList.length
  objects : w.objectsTable.length = w.objectsList.length
  contexts : w.contextsTable.length = w.contextsList.length

theorem Work.round_run {workTodo : Bool} (here : work.Here world roots)
    (run : work.round world = .ok (reached, workTodo)) :
    reached.Here world roots ∧ (workTodo = true → work.done < reached.done) ∧
      (workTodo = false → AllDone reached.writer) := by
  obtain ⟨w₁, stablesRun, run⟩ := of_bind run
  obtain ⟨w₂, objectsRun, run⟩ := of_bind run
  obtain ⟨w₃, contextsRun, finish⟩ := of_bind run
  have insideStables := here.stables ▸ here.consistent.stablesInside
  have insideObjects := here.objects ▸ here.consistent.objectsInside
  have insideContexts := here.contexts ▸ here.consistent.contextsInside
  have afterRound := drain_contexts fits
    (drain_objects fits (drain_stables fits here stablesRun) objectsRun) contextsRun
  rw [Nat.add_sub_cancel' insideStables, Nat.add_sub_cancel' insideObjects,
    Nat.add_sub_cancel' insideContexts] at afterRound
  cases finish
  constructor
  · rw [← max_eq_right insideStables, ← max_eq_right insideObjects,
      ← max_eq_right insideContexts] at afterRound
    exact afterRound
  constructor
  · intro worked
    simp only [Bool.or_eq_true, decide_eq_true_eq] at worked
    simp only [Work.done]
    omega
  intro idle
  simp only [Bool.or_eq_false_iff, decide_eq_false_iff_not, not_lt] at idle
  obtain ⟨⟨noStables, noObjects⟩, noContexts⟩ := idle
  -- Nothing was drained, so the lists are the ones the round started with.
  rw [Nat.sub_eq_zero_of_le noStables] at stablesRun
  rw [Nat.sub_eq_zero_of_le noObjects] at objectsRun
  rw [Nat.sub_eq_zero_of_le noContexts] at contextsRun
  cases stablesRun
  cases objectsRun
  cases contextsRun
  exact ⟨afterRound.stables, afterRound.objects, afterRound.contexts⟩

/-- The run of the loop: where it ends, everything has its row. -/
theorem Work.loop_run {rounds : Nat} (here : work.Here world roots)
    (run : Work.loop world rounds work = .ok (some reached)) :
    reached.Here world roots ∧ AllDone reached.writer := by
  induction rounds generalizing work with
  | zero => cases run
  | succ rounds ih =>
    obtain ⟨⟨next, workTodo⟩, roundRun, run⟩ := of_bind run
    obtain ⟨nextHere, -, idle⟩ := Work.round_run fits here roundRun
    cases workTodo with
    | true => exact ih nextHere run
    | false =>
      cases run
      exact ⟨nextHere, idle rfl⟩

omit fits in
theorem length_le_of_listed {list : List Nat} {graph : List Node} {node : Nat → Node}
    (injective : ∀ {a b}, node a = node b → a = b) (once : list.Nodup)
    (inside : ∀ entry ∈ list, node entry ∈ graph) : list.length ≤ graph.length := by
  have nodup : (list.map node).Nodup :=
    List.Pairwise.map node (fun _ _ different same => different (injective same)) once
  have subset : list.map node ⊆ graph := by
    intro other member
    obtain ⟨entry, listed, rfl⟩ := mem_map.mp member
    exact inside entry listed
  have bound := nodup.length_le_of_subset subset
  rw [length_map] at bound
  exact bound

omit fits in
theorem Work.done_le (finite : ∀ node, Reachable world roots node → node ∈ graph)
    (here : work.Here world roots) : work.done ≤ 3 * graph.length := by
  have consistent := here.consistent
  have stables := @length_le_of_listed _ graph Node.stable (fun same => Node.stable.inj same)
    consistent.ledger.stablesOnce
    fun st listed => finite _ (consistent.reached (.stable st) listed)
  have objects := @length_le_of_listed _ graph Node.object (fun same => Node.object.inj same)
    consistent.ledger.objectsOnce
    fun obj listed => finite _ (consistent.reached (.object obj) listed)
  have contexts := @length_le_of_listed _ graph Node.context
    (fun same => Node.context.inj same) consistent.ledger.contextsOnce
    fun ctx listed => finite _ (consistent.reached (.context ctx) listed)
  have stablesInside := here.stables ▸ consistent.stablesInside
  have objectsInside := here.objects ▸ consistent.objectsInside
  have contextsInside := here.contexts ▸ consistent.contextsInside
  rw [Work.done]
  omega

/-- With more rounds than there are things left, the loop comes to its end. -/
theorem Work.loop_ends
    (finite : ∀ node, Reachable world roots node → node ∈ graph) {rounds : Nat} {work : Work}
    (here : work.Here world roots) (enough : 3 * graph.length < work.done + rounds) :
    Work.loop world rounds work ≠ .ok none := by
  induction rounds generalizing work with
  | zero =>
    have bound := Work.done_le finite here
    omega
  | succ rounds ih =>
    intro endless
    obtain ⟨⟨next, workTodo⟩, roundRun, run⟩ := of_bind endless
    obtain ⟨nextHere, worked, -⟩ := Work.round_run fits here roundRun
    cases workTodo with
    | true =>
      have more := worked rfl
      exact ih nextHere (by omega) run
    | false => cases run

end

end RakudoStar.Serialization
