import RakudoStar.Serialization.WorkList

/-!
# Closure and completeness

What `Serialization_serialize` leaves: one row for every reachable thing, rows in the order of
the lists, and pairs that lead to what they were written for.
-/

namespace RakudoStar.Serialization

open Foundation List RakudoStar.Except

variable {world : World} {roots : Roots} {w after : Writer} {node : Node}

theorem start_scOf (roots : Roots) (node : Node) :
    (Writer.start roots).scOf node = roots.scOf node := by
  cases node <;> rfl

theorem start_ledger (wellFormed : roots.WellFormed) : Ledger world roots (Writer.start roots) where
  sc := rfl
  kept := fun node sc known => (start_scOf roots node).trans known
  claimed := fun node free => .inl ((start_scOf roots node).trans free)
  owned := by
    intro node queued
    cases node with
    | stable st => exact wellFormed.stablesOwned st queued
    | object obj => exact wellFormed.objectsOwned obj queued
    | code code => exact absurd queued id
    | context ctx => cases queued
  stablesOnce := wellFormed.stablesOnce
  objectsOnce := wellFormed.objectsOnce
  contextsOnce := nodup_nil
  closures := fun code free isIn => absurd free isIn
  closureRows := ⟨[], (append_nil roots.codes).symm, fun _ => List.Forall₂.nil⟩

theorem start_consistent (wellFormed : roots.WellFormed) :
    Consistent world roots (Writer.start roots) where
  grown := Grown.refl _
  ledger := start_ledger wellFormed
  sound := start_sound world roots
  stablesInside := Nat.zero_le _
  objectsInside := Nat.zero_le _
  contextsInside := Nat.zero_le _
  processed := by
    intro node processed
    cases node with
    | stable | object => cases processed
    | code code => exact absurd processed id
    | context ctx => cases processed
  rows := fun _ => ⟨List.Forall₂.nil, List.Forall₂.nil, List.Forall₂.nil⟩
  reached := by
    intro node queued
    cases node with
    | stable st => exact Reachable.stable st queued
    | object obj => exact Reachable.object obj queued
    | code code => exact absurd queued id
    | context ctx => cases queued

theorem start_here (wellFormed : roots.WellFormed) : (Work.start roots).Here world roots :=
  ⟨start_consistent wellFormed, rfl, rfl, rfl⟩

/-- The row of a repossession leads to the place that the thing had in its original
context. -/
structure DescribesRepossession (world : World) (w : Writer) (entry : Nat × Sc)
    (row : RepossessionRow) : Prop where
  isStable : row.isStable = decide (entry.1 % 2 = 1)
  objIdx : row.objIdx = int4 (entry.1 / 2 : Nat)
  stable : entry.1 % 2 = 1 → ∃ st, w.stablesList[entry.1 / 2]? = some st ∧
    Writer.DenotesStable world w row.origSc row.origIdx st
  object : entry.1 % 2 ≠ 1 → ∃ obj, w.objectsList[entry.1 / 2]? = some obj ∧
    Writer.DenotesObject world w row.origSc row.origIdx obj

theorem DescribesRepossession.of_grown {before : Writer} (grown : Grown before after)
    {entry : Nat × Sc} {row : RepossessionRow}
    (describes : DescribesRepossession world before entry row) :
    DescribesRepossession world after entry row where
  isStable := describes.isStable
  objIdx := describes.objIdx
  stable := by
    intro isStable
    obtain ⟨st, known, denotes⟩ := describes.stable isStable
    exact ⟨st, getElem?_of_pre grown.stables known, denotes.of_grown grown⟩
  object := by
    intro isObject
    obtain ⟨obj, known, denotes⟩ := describes.object isObject
    exact ⟨obj, getElem?_of_pre grown.objects known, denotes.of_grown grown⟩

theorem describesRepossession_of_found {index : Nat} {origSc : Sc}
    {origScId : Int} {origIdx : Nat} (bounded : Bounded world after)
    (scRun : w.getScId world origSc = .ok (after, origScId))
    (findRun : after.origIdx world (index % 2 = 1) (index / 2) origSc = .ok origIdx) :
    DescribesRepossession world after (index, origSc)
      ⟨index % 2 = 1, int4 (index / 2 : Nat), origScId, int4 origIdx⟩ := by
  have denotesSc := Writer.getScId_denotes bounded.dependencies scRun
  rw [Writer.origIdx] at findRun
  constructor
  · rfl
  · rfl
  · intro isStable
    rw [if_pos (decide_eq_true isStable)] at findRun
    split at findRun
    · rename_i st known
      have found := Writer.findStableIdx_ok findRun
      have small := (lt_length_of_getElem? found).trans_le (bounded.stables origSc)
      exact ⟨st, known, origSc, denotesSc, origIdx, int4_eq small, found⟩
    · cases findRun
  intro isObject
  have notStable : ¬ decide (index % 2 = 1) = true := by
    rw [decide_eq_true_eq]
    exact isObject
  rw [if_neg notStable] at findRun
  split at findRun
  · rename_i obj known
    have found := Writer.findObjectIdx_ok findRun
    have small := (lt_length_of_getElem? found).trans_le (bounded.objects origSc)
    exact ⟨obj, known, origSc, denotesSc, origIdx, int4_eq small, found⟩
  · cases findRun

theorem serializeRepossessions_run {repossessions : List (Nat × Sc)} {rows : List RepossessionRow}
    (run : w.serializeRepossessions world repossessions = .ok (after, rows)) :
    Quiet world w after ∧ Unclaimed w after ∧ (Bounded world after →
      List.Forall₂ (DescribesRepossession world after) repossessions rows) := by
  induction repossessions generalizing w rows with
  | nil =>
    cases run
    exact ⟨Quiet.refl world _, Unclaimed.refl _, fun _ => List.Forall₂.nil⟩
  | cons entry repossessions ih =>
    obtain ⟨index, origSc⟩ := entry
    obtain ⟨⟨middle, origScId⟩, scRun, run⟩ := of_bind run
    obtain ⟨origIdx, findRun, run⟩ := of_bind run
    obtain ⟨⟨last, others⟩, othersRun, finish⟩ := of_bind run
    cases finish
    obtain ⟨quiet, unclaimed, described⟩ := ih othersRun
    constructor
    · exact (Writer.getScId_quiet scRun).trans quiet
    constructor
    · exact (Writer.getScId_unclaimed scRun).trans unclaimed
    intro bounded
    have grown := quiet.grown.toGrown
    have first := describesRepossession_of_found (bounded.of_grown grown) scRun findRun
    exact List.Forall₂.cons (first.of_grown grown) (described bounded)

theorem concatenateOutputs_sane (w : Writer) (repossessions : List RepossessionRow) :
    ∃ header, concatenateOutputs w repossessions = .ok header :=
  ⟨_, if_neg (not_not_intro rfl)⟩

structure Serialized.Complete (world : World) (roots : Roots) (s : Serialized) : Prop where
  stables : List.Forall₂ (DescribesStable world s.writer) s.writer.stablesList s.writer.stablesTable
  objects : List.Forall₂ (DescribesObject world s.writer) s.writer.objectsList s.writer.objectsTable
  contexts : List.Forall₂ (DescribesContext world s.writer) s.writer.contextsList
    s.writer.contextsTable
  stablesOnce : s.writer.stablesList.Nodup
  objectsOnce : s.writer.objectsList.Nodup
  contextsOnce : s.writer.contextsList.Nodup
  /-- Everything reachable that is not in another context is in its list. -/
  listed : ∀ node, Reachable world roots node → roots.Walked node → s.writer.Listed node
  /-- Nothing else has a row. -/
  reached : ∀ node, s.writer.Queued node → Reachable world roots node
  closures : ClosureRows world roots s.writer
  dependencies : List.Forall₂ (NamesSc world s.writer) s.writer.dependentScs
    s.writer.dependenciesTable
  repossessions : List.Forall₂ (DescribesRepossession world s.writer) roots.repossessions
    s.repossessions

theorem AllDone.processed (all : AllDone w) (queued : w.Queued node) : w.Processed node := by
  cases node with
  | stable st =>
    rw [Writer.Processed, all.stables, take_length]
    exact queued
  | object obj =>
    rw [Writer.Processed, all.objects, take_length]
    exact queued
  | code code => exact queued
  | context ctx =>
    rw [Writer.Processed, all.contexts, take_length]
    exact queued

/-- When everything has its row, everything reachable is settled. -/
theorem settled_of_reachable (wellFormed : roots.WellFormed)
    (consistent : Consistent world roots w) (all : AllDone w)
    (reachable : Reachable world roots node) : w.Settled node := by
  induction reachable with
  | stable st root =>
    exact ⟨roots.sc, consistent.ledger.kept (.stable st) _ (wellFormed.stablesOwned st root),
      fun _ => consistent.grown.stables.subset root⟩
  | object obj root =>
    exact ⟨roots.sc, consistent.ledger.kept (.object obj) _ (wellFormed.objectsOwned obj root),
      fun _ => consistent.grown.objects.subset root⟩
  | step node other _ walked member ih =>
    cases node with
    | stable st =>
      have listed := consistent.ledger.listed ih walked
      exact consistent.processed (.stable st) (all.processed listed) other member
    | object obj =>
      have listed := consistent.ledger.listed ih walked
      exact consistent.processed (.object obj) (all.processed listed) other member
    | context ctx =>
      have listed := consistent.ledger.listed ih walked
      exact consistent.processed (.context ctx) (all.processed listed) other member
    | code code =>
      obtain ⟨sc, isIn, -⟩ := ih
      apply consistent.ledger.closures code walked _ other member
      intro nowhere
      rw [show w.scOf (.code code) = none from nowhere] at isIn
      cases isIn

theorem serialize_finished (wellFormed : roots.WellFormed) (fits : world.Fits) {rounds : Nat}
    {s : Serialized} (run : serialize world roots rounds = .ok (some s))
    (bounded : Bounded world s.writer) : s.Complete world roots := by
  obtain ⟨finished, loopRun, run⟩ := of_bind run
  cases finished with
  | none => cases run
  | some work =>
    obtain ⟨⟨w, rows⟩, repossessRun, run⟩ := of_bind run
    obtain ⟨header, -, finish⟩ := of_bind run
    cases finish
    obtain ⟨here, all⟩ := Work.loop_run fits (start_here wellFormed) loopRun
    obtain ⟨quiet, unclaimed, repossessed⟩ := serializeRepossessions_run repossessRun
    have grown := quiet.grown.toGrown
    have consistent := here.consistent
    have met : Discovers world roots work.writer w [] := Discovers.of_unclaimed grown unclaimed
    have ledger := met.ledger consistent.ledger
    have described := consistent.rows (bounded.of_grown grown)
    constructor
    · rw [unclaimed.stables, quiet.grown.stablesTable]
      exact (described.stables.forall₂ all.stables).imp fun _ _ row => row.of_grown grown
    · rw [unclaimed.objects, quiet.grown.objectsTable]
      exact (described.objects.forall₂ all.objects).imp fun _ _ row => row.of_grown grown
    · rw [unclaimed.contexts, quiet.grown.contextsTable]
      exact (described.contexts.forall₂ all.contexts).imp fun _ _ row => row.of_grown grown
    · exact ledger.stablesOnce
    · exact ledger.objectsOnce
    · exact ledger.contextsOnce
    · intro node reachable walked
      have settled := met.settled_of (settled_of_reachable wellFormed consistent all reachable)
      cases node with
      | stable st | object obj | context ctx => exact ledger.listed settled walked
      | code code => exact ledger.listed settled (.inl walked)
    · exact fun node queued => consistent.reached node (unclaimed.queued queued)
    · exact ledger.closureRows
    · exact (quiet.sound consistent.sound).names
    · exact repossessed bounded

/-- Serializing a finite object graph comes to an end, by an exception or with a complete
result, and the sanity check of the output never fires. -/
theorem serialize_complete (wellFormed : roots.WellFormed) (fits : world.Fits)
    {graph : List Node} (finite : ∀ node, Reachable world roots node → node ∈ graph) :
    (∀ rounds, 3 * graph.length < rounds → serialize world roots rounds ≠ .ok none) ∧
    (∀ rounds s, serialize world roots rounds = .ok (some s) → Bounded world s.writer →
      s.Complete world roots) ∧
    ∀ w repossessions, ∃ header, concatenateOutputs w repossessions = .ok header := by
  constructor
  · intro rounds enough endless
    obtain ⟨finished, loopRun, run⟩ := of_bind endless
    cases finished with
    | none =>
      have ends := @Work.loop_ends world roots fits graph finite rounds (Work.start roots)
        (start_here wellFormed) (enough.trans_le (Nat.le_add_left ..))
      exact ends loopRun
    | some work =>
      obtain ⟨⟨w, rows⟩, -, run⟩ := of_bind run
      obtain ⟨header, -, finish⟩ := of_bind run
      cases finish
  constructor
  · intro rounds s run bounded
    exact serialize_finished wellFormed fits run bounded
  · exact concatenateOutputs_sane

section

def oneObject : Roots :=
  { bareRoots with objects := [0], scOfObject := fun obj => if obj = 0 then some 0 else none }

theorem oneObject_wellFormed : oneObject.WellFormed where
  stablesOnce := nodup_nil
  objectsOnce := pairwise_singleton ..
  stablesOwned := nofun
  objectsOwned := by
    intro obj member
    rw [mem_singleton.mp member]
    rfl

theorem bareWorld_fits : bareWorld.Fits where
  stables := by
    intro st item member
    simp only [bareWorld, stableItems, countedRefs, boolificationItems, containerItems,
      map_nil, cons_append, nil_append, append_nil, mem_cons, not_mem_nil, or_false] at member
    rcases member with rfl | rfl | rfl | rfl | rfl | rfl | rfl | rfl | rfl <;> trivial
  objects := nofun
  contexts := by
    intro ctx item member
    rw [mem_singleton.mp member]
    trivial

theorem oneObject_reachable
    (references : ∀ node, ∀ other ∈ world.references node, other = .object 0 ∨ other = .stable 0)
    (node : Node) (reachable : Reachable world oneObject node) :
    node ∈ [Node.object 0, Node.stable 0] := by
  have known : node = .object 0 ∨ node = .stable 0 := by
    cases reachable with
    | stable st root => cases root
    | object obj root => exact .inl (congrArg Node.object (mem_singleton.mp root))
    | step node other _ _ member => exact references node _ member
  rcases known with rfl | rfl
  · exact mem_cons_self ..
  · exact mem_cons_of_mem _ (mem_cons_self ..)

theorem bareWorld_references (node other : Node) (member : other ∈ bareWorld.references node) :
    other = .object 0 ∨ other = .stable 0 := by
  cases node with
  | stable st =>
    change other ∈ [Node.object 0, Node.object 0] at member
    simp only [mem_cons, not_mem_nil, or_false, or_self] at member
    exact .inl member
  | object obj => exact .inr (mem_singleton.mp member)
  | code | context => cases member

def oneSerialized : Option Serialized :=
  match serialize bareWorld oneObject 7 with
  | .ok finished => finished
  | .error _ => none

theorem oneSerialized_sizes :
    oneSerialized.map (fun s => (s.writer.stringHeap.length, s.writer.dependentScs.length,
      s.writer.stablesList.length, s.writer.objectsList.length, s.writer.codesList.length)) =
      some (2, 0, 1, 1, 0) := by
  decide +kernel

/-- One object and the STable found through it. -/
theorem serialize_complete_one :
    ∃ s, serialize bareWorld oneObject 7 = .ok (some s) ∧ s.Complete bareWorld oneObject := by
  have sizes := oneSerialized_sizes
  have complete := serialize_complete oneObject_wellFormed bareWorld_fits
    (oneObject_reachable bareWorld_references)
  have ends := complete.1 7 (by decide)
  rw [oneSerialized] at sizes
  cases run : serialize bareWorld oneObject 7 with
  | error failure =>
    rw [run] at sizes
    cases sizes
  | ok finished =>
    cases finished with
    | none => exact absurd run ends
    | some s =>
      rw [run] at sizes
      simp only [Option.map_some, Option.some.injEq, Prod.mk.injEq] at sizes
      obtain ⟨heap, dependencies, stables, objects, codes⟩ := sizes
      have bounded : Bounded bareWorld s.writer := by
        constructor
        · rw [heap]
          decide
        · rw [dependencies]
          decide
        · intro sc
          rw [Writer.rootStables]
          split
          · rw [stables]
            decide
          · exact Nat.zero_le _
        · intro sc
          rw [Writer.rootObjects]
          split
          · rw [objects]
            decide
          · exact Nat.zero_le _
        · intro sc
          rw [Writer.rootCodes]
          split
          · rw [codes]
            decide
          · exact Nat.zero_le _
      exact ⟨s, rfl, complete.2.1 7 s run bounded⟩

/-- An object with a Parrot object in its body. -/
def foreignWorld : World :=
  { bareWorld with
    object := fun _ =>
      { isSixModelObject := true, stable := 0, concrete := true
        body := some [.ref (.parrotObject "Exporter")] } }

theorem foreignWorld_references (node other : Node)
    (member : other ∈ foreignWorld.references node) : other = .object 0 ∨ other = .stable 0 := by
  cases node with
  | stable st => exact bareWorld_references (.stable st) other member
  | object obj => exact .inr (mem_singleton.mp member)
  | code | context => cases member

/-- An object that refers to a value of a type that cannot be serialized gets no row,
although the object graph is finite. -/
theorem unsupported_type_ends_without_rows :
    oneObject.WellFormed ∧ Reachable foreignWorld oneObject (.object 0) ∧
      oneObject.Walked (.object 0) ∧
      (∀ node, Reachable foreignWorld oneObject node → node ∈ [Node.object 0, Node.stable 0]) ∧
      ∀ rounds s, serialize foreignWorld oneObject rounds ≠ .ok (some s) := by
  have failed : ((Work.start oneObject).round foreignWorld).isOk = false := by
    decide +kernel
  have unserialized : ∀ rounds s, serialize foreignWorld oneObject rounds ≠ .ok (some s) := by
    intro rounds s run
    obtain ⟨finished, loopRun, run⟩ := of_bind run
    cases rounds with
    | zero =>
      cases loopRun
      cases run
    | succ rounds =>
      obtain ⟨next, roundRun, -⟩ := of_bind loopRun
      rw [roundRun] at failed
      cases failed
  exact ⟨oneObject_wellFormed, Reachable.object 0 (mem_cons_self ..), .inr rfl,
    oneObject_reachable foreignWorld_references, unserialized⟩

end

end RakudoStar.Serialization
