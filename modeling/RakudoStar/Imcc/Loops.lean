import RakudoStar.Imcc.Dominators

/-!
# Loops of control-flow graphs

`find_loops` marks the natural loop of every edge to a dominator. The exits leave out the first
block, and the depths are those of a single nested pair.
-/

namespace RakudoStar.Imcc

open Foundation List Nat Function

variable {m : Nat}

/-- The block leads to the footer on a path that leaves the header aside. -/
inductive LeadsTo (edges : List (Edge m)) (header footer : Fin (m + 1)) : Fin (m + 1) → Prop
  | footer (other : footer ≠ header) : LeadsTo edges header footer footer
  | step {u v : Fin (m + 1)} (later : LeadsTo edges header footer v) (next : Follows edges u v)
      (other : u ≠ header) : LeadsTo edges header footer u

/-- The natural loop of an edge from the footer back to the header. -/
def NaturalLoop (edges : List (Edge m)) (e : Edge m) (x : Fin (m + 1)) : Prop :=
  x = e.target ∨ LeadsTo edges e.target e.source x

theorem LeadsTo.other {edges : List (Edge m)} {header footer x : Fin (m + 1)}
    (leads : LeadsTo edges header footer x) : x ≠ header := by
  cases leads with
  | footer other => exact other
  | step _ _ other => exact other

variable {edges : List (Edge m)} {e : Edge m}

section

/-- What the search from a block adds: predecessors of the block and of what it adds. -/
structure Searched (edges : List (Edge m)) (preds : List (Edge m))
    (before after : Finset (Fin (m + 1)) × (Fin (m + 1) → Nat)) : Prop where
  grows : before.1 ⊆ after.1
  sources : ∀ edge ∈ preds, edge.source ∈ after.1
  closed : ∀ x ∈ after.1, x ∉ before.1 → ∀ u, Follows edges u x → u ∈ after.1
  sound : ∀ {header footer : Fin (m + 1)}, header ∈ before.1 →
    (∀ edge ∈ preds, edge.source ≠ header → LeadsTo edges header footer edge.source) →
    ∀ x ∈ after.1, x ∉ before.1 → LeadsTo edges header footer x
  depths : ∀ x ∈ before.1, after.2 x = before.2 x

theorem searchPredecessorsNotIn_spec {calls : Nat} {node : Fin (m + 1)}
    {state : Finset (Fin (m + 1)) × (Fin (m + 1) → Nat)}
    (fuel : (Finset.univ \ state.1).card < calls) :
    ∃ result, searchPredecessorsNotIn edges calls node state = some result ∧
      Searched edges (predList edges node) state result := by
  induction calls generalizing node state with
  | zero => exact absurd fuel (not_lt_zero _)
  | succ calls ih =>
    rw [searchPredecessorsNotIn]
    generalize predList edges node = preds
    -- the loop over the predecessors
    induction preds generalizing state with
    | nil => exact ⟨state, rfl, fun _ member => member,
        nofun,
        fun x member fresh => absurd member fresh,
        fun _ _ x member fresh => absurd member fresh, fun _ _ => rfl⟩
    | cons edge preds rest =>
      rw [foldlM_cons]
      by_cases present : edge.source ∈ state.1
      · rw [if_pos present]
        obtain ⟨result, run, searched⟩ := rest fuel
        refine ⟨result, run, searched.grows, ?_, searched.closed, ?_, searched.depths⟩
        · exact forall_mem_cons.mpr ⟨searched.grows present, searched.sources⟩
        · intro header footer inside leads
          exact searched.sound inside (forall_mem_cons.mp leads).2
      rw [if_neg present]
      have fewer : (Finset.univ \ insert edge.source state.1).card <
          (Finset.univ \ state.1).card := by
        apply Finset.card_lt_card
        constructor
        · intro x member
          rw [Finset.mem_sdiff, Finset.mem_insert, not_or] at member
          exact Finset.mem_sdiff.mpr ⟨member.1, member.2.2⟩
        intro within
        have member := within (Finset.mem_sdiff.mpr ⟨Finset.mem_univ _, present⟩)
        exact (Finset.mem_sdiff.mp member).2 (Finset.mem_insert_self _ _)
      obtain ⟨middle, first, deep⟩ := @ih edge.source
        (insert edge.source state.1, deepen state.2 edge.source)
        (fewer.trans_le (le_of_lt_succ fuel))
      have wider : state.1 ⊆ middle.1 :=
        fun x member => deep.grows (Finset.mem_insert_of_mem member)
      have here : edge.source ∈ middle.1 := deep.grows (Finset.mem_insert_self _ _)
      have spare : (Finset.univ \ middle.1).card < calls + 1 :=
        lt_of_le_of_lt
          (Finset.card_le_card (Finset.sdiff_subset_sdiff (Finset.Subset.refl _) wider)) fuel
      obtain ⟨result, run, searched⟩ := rest spare
      refine ⟨result, ?_, ?_, ?_, ?_, ?_, ?_⟩
      · rw [first]
        exact run
      · exact fun x member => searched.grows (wider member)
      · exact forall_mem_cons.mpr ⟨searched.grows here, searched.sources⟩
      · intro x member fresh u follows
        by_cases early : x ∈ middle.1
        · by_cases same : x = edge.source
          · exact searched.grows (deep.sources ⟨u, x⟩ (mem_predList.mpr ⟨follows, same⟩))
          have new : x ∉ insert edge.source state.1 := by
            rw [Finset.mem_insert, not_or]
            exact ⟨same, fresh⟩
          exact searched.grows (deep.closed x early new u follows)
        · exact searched.closed x member early u follows
      · intro header footer inside leads x member fresh
        have apart : edge.source ≠ header := fun same => present (same ▸ inside)
        have leadsHere := leads edge mem_cons_self apart
        by_cases early : x ∈ middle.1
        · by_cases same : x = edge.source
          · rw [same]
            exact leadsHere
          have new : x ∉ insert edge.source state.1 := by
            rw [Finset.mem_insert, not_or]
            exact ⟨same, fresh⟩
          apply deep.sound (Finset.mem_insert_of_mem inside) _ x early new
          intro other within aside
          obtain ⟨listed, target⟩ := mem_predList.mp within
          have follows : Follows edges other.source edge.source := target ▸ listed
          exact leadsHere.step follows aside
        · apply searched.sound (wider inside) _ x member early
          exact (forall_mem_cons.mp leads).2
      · intro x member
        have apart : x ≠ edge.source := fun same => present (same ▸ member)
        rw [searched.depths x (wider member), deep.depths x (Finset.mem_insert_of_mem member)]
        exact update_of_ne apart _ _

theorem remaining_lt (s : Finset (Fin (m + 1))) : (Finset.univ \ s).card < m + 2 := by
  have bound := Finset.card_le_univ (Finset.univ \ s)
  rw [Fintype.card_fin] at bound
  exact lt_succ_of_le bound

theorem searched_naturalLoop (differ : e.target ≠ e.source)
    {depths : Fin (m + 1) → Nat} {result : Finset (Fin (m + 1)) × (Fin (m + 1) → Nat)} (searched :
      Searched edges (predList edges e.source) (insert e.target {e.source}, depths) result)
    (x : Fin (m + 1)) : x ∈ result.1 ↔ NaturalLoop edges e x := by
  have header : e.target ∈ insert e.target ({e.source} : Finset (Fin (m + 1))) :=
    Finset.mem_insert_self _ _
  have footer : e.source ∈ insert e.target ({e.source} : Finset (Fin (m + 1))) :=
    Finset.mem_insert_of_mem (Finset.mem_singleton_self _)
  have start : LeadsTo edges e.target e.source e.source := .footer differ.symm
  constructor
  · intro member
    by_cases old : x ∈ insert e.target ({e.source} : Finset (Fin (m + 1)))
    · rcases Finset.mem_insert.mp old with same | same
      · exact .inl same
      · rw [Finset.mem_singleton.mp same]
        exact .inr start
    right
    apply searched.sound header _ x member old
    intro edge within aside
    obtain ⟨listed, target⟩ := mem_predList.mp within
    have follows : Follows edges edge.source e.source := target ▸ listed
    exact start.step follows aside
  rintro (rfl | leads)
  · exact searched.grows header
  induction leads with
  | footer _ => exact searched.grows footer
  | @step u v later next other ih =>
    by_cases old : v ∈ insert e.target ({e.source} : Finset (Fin (m + 1)))
    · rcases Finset.mem_insert.mp old with same | same
      · exact absurd same later.other
      · rw [Finset.mem_singleton.mp same] at next
        exact searched.sources ⟨u, e.source⟩ (mem_predList.mpr ⟨next, rfl⟩)
    · exact searched.closed v ih old u next

theorem naturalLoop_self (same : e.target = e.source) (x : Fin (m + 1)) :
    NaturalLoop edges e x ↔ x = e.target := by
  constructor
  · rintro (here | leads)
    · exact here
    induction leads with
    | footer other => exact absurd same.symm other
    | step later _ _ ih => exact absurd ih later.other
  · exact .inl

end

section

variable (bb : Fin (m + 1) → BasicBlock m)

/-- The only predecessor of the header outside of the loop, and it goes nowhere else. -/
def IsPreheader (edges : List (Edge m)) (loop : Finset (Fin (m + 1))) (header p : Fin (m + 1)) :
    Prop :=
  (Follows edges p header ∧ p ∉ loop ∧ ∀ q, Follows edges q header → q ∉ loop → q = p) ∧
    ∀ v, Follows edges p v → v = header

theorem bbAddEdge_nodup (distinct : edges.Nodup) (source target : Fin (m + 1)) :
    (bbAddEdge edges source target).Nodup := by
  unfold bbAddEdge
  split
  · exact distinct
  rename_i apart
  rw [Bool.not_eq_true, blocksAreConnected, any_eq_false] at apart
  apply nodup_cons.mpr ⟨_, distinct⟩
  intro member
  exact apart _ (mem_predList.mpr ⟨member, rfl⟩) (decide_eq_true rfl)

theorem addBlockEdges_nodup_none (distinct : edges.Nodup)
    (i : Fin (m + 1)) : (addBlockEdges bb edges none i).Nodup := by
  have second : (if (bb i).setAddr then bbAddEdge (bbAddEdge edges 0 i) (Fin.last m) i
      else edges).Nodup := by
    split
    · exact bbAddEdge_nodup (bbAddEdge_nodup distinct _ _) _ _
    · exact distinct
  unfold addBlockEdges
  dsimp only
  split
  · exact second
  · exact second
  · exact bbAddEdge_nodup second _ _
  · exact bbAddEdge_nodup second _ _

theorem addBlockEdges_nodup (distinct : edges.Nodup)
    (last : Option (Fin (m + 1))) (i : Fin (m + 1)) : (addBlockEdges bb edges last i).Nodup := by
  cases last with
  | none => exact addBlockEdges_nodup_none bb distinct i
  | some last =>
    have first : (if (bb last).goto then edges else bbAddEdge edges last i).Nodup := by
      split
      · exact distinct
      · exact bbAddEdge_nodup distinct last i
    exact addBlockEdges_nodup_none bb first i

theorem addEdges_nodup : (addEdges bb).Nodup := by
  have fold : ∀ (is : List (Fin (m + 1))) (state : List (Edge m) × Option (Fin (m + 1))),
      state.1.Nodup → (is.foldl (fun (state : List (Edge m) × Option (Fin (m + 1))) i =>
        (addBlockEdges bb state.1 state.2 i, some i)) state).1.Nodup := by
    intro is
    induction is with
    | nil => exact fun _ distinct => distinct
    | cons i is ih =>
      intro state distinct
      exact ih _ (addBlockEdges_nodup bb distinct _ _)
  exact fold _ _ nodup_nil

theorem decoupleLoop_sublist {rounds : Nat} {result : List (Edge m)}
    (run : decoupleLoop rounds edges = some result) : result.Sublist edges := by
  induction rounds generalizing edges with
  | zero => cases run
  | succ rounds ih =>
    have round : (decoupleRound edges).Sublist edges := foldl_decouple_sublist _ _
    rw [decoupleLoop] at run
    split at run
    · exact (ih run).trans round
    · cases run
      exact round

theorem buildCfg_nodup {bb : Fin (m + 1) → BasicBlock m} (built : buildCfg bb = some edges) :
    edges.Nodup :=
  (decoupleLoop_sublist built).nodup (addEdges_nodup bb)

theorem mem_succList {bb : Fin (m + 1)} {edge : Edge m} :
    edge ∈ succList edges bb ↔ edge ∈ edges ∧ edge.source = bb := by
  rw [succList, mem_filter, decide_eq_true_iff]

theorem eq_singleton_iff {α : Type} {list : List α} (distinct : list.Nodup) {a : α} :
    list = [a] ↔ a ∈ list ∧ ∀ b ∈ list, b = a := by
  constructor
  · rintro rfl
    exact ⟨mem_singleton_self a, fun b member => mem_singleton.mp member⟩
  rintro ⟨member, only⟩
  cases list with
  | nil => cases member
  | cons b list =>
    rw [only b mem_cons_self]
    cases list with
    | nil => rfl
    | cons c list =>
      have same := (only b mem_cons_self).trans (only c (mem_cons_of_mem _ mem_cons_self)).symm
      rw [same] at distinct
      exact absurd mem_cons_self (nodup_cons.mp distinct).1

theorem onlyJumps_iff (distinct : edges.Nodup) {p header : Fin (m + 1)}
    (follows : Follows edges p header) :
    onlyJumps edges p header = true ↔ ∀ v, Follows edges p v → v = header := by
  have listed : (⟨p, header⟩ : Edge m) ∈ succList edges p := mem_succList.mpr ⟨follows, rfl⟩
  have one : succList edges p = [⟨p, header⟩] ↔ ∀ v, Follows edges p v → v = header := by
    have once : (succList edges p).Nodup := distinct.filter _
    rw [eq_singleton_iff once]
    constructor
    · rintro ⟨-, only⟩ v next
      exact congrArg Edge.target (only ⟨p, v⟩ (mem_succList.mpr ⟨next, rfl⟩))
    intro only
    refine ⟨listed, ?_⟩
    rintro ⟨source, target⟩ member
    obtain ⟨within, rfl⟩ := mem_succList.mp member
    rw [only target within]
  rw [← one]
  constructor
  · intro jumps
    unfold onlyJumps at jumps
    split at jumps
    · rename_i edge single
      rw [single, mem_singleton] at listed
      rw [single, listed]
    · cases jumps
  · intro single
    rw [onlyJumps, single]
    exact decide_eq_true rfl

/-- What the loop of `natural_preheader` makes of the predecessors outside. -/
theorem preheaderLoop_spec (loop : Finset (Fin (m + 1))) (header : Fin (m + 1))
    (preds : List (Edge m)) : (∀ p, preheaderLoop edges loop header preds (some p) =
      if preds.filter (fun edge => edge.source ∉ loop) = [] then some p else none) ∧
    preheaderLoop edges loop header preds none =
      match preds.filter (fun edge => edge.source ∉ loop) with
      | [edge] => if onlyJumps edges edge.source header then some edge.source else none
      | _ => none := by
  induction preds with
  | nil => exact ⟨fun _ => rfl, rfl⟩
  | cons edge preds ih =>
    obtain ⟨found, open_⟩ := ih
    by_cases inside : edge.source ∈ loop
    · have skipped : (edge :: preds).filter (fun edge => edge.source ∉ loop) =
          preds.filter (fun edge => edge.source ∉ loop) :=
        filter_cons_of_neg (by simpa using inside)
      rw [skipped]
      constructor
      · intro p
        rw [preheaderLoop, if_pos inside, found]
      · rw [preheaderLoop, if_pos inside, open_]
    have kept : (edge :: preds).filter (fun edge => edge.source ∉ loop) =
        edge :: preds.filter (fun edge => edge.source ∉ loop) :=
      filter_cons_of_pos (by simpa using inside)
    rw [kept]
    constructor
    · intro p
      rw [preheaderLoop, if_neg inside, if_neg (cons_ne_nil _ _)]
      apply if_neg
      rintro ⟨impossible, -⟩
      cases impossible
    rw [preheaderLoop, if_neg inside]
    by_cases jumps : onlyJumps edges edge.source header = true
    · rw [if_pos ⟨rfl, jumps⟩, found]
      cases preds.filter (fun edge => edge.source ∉ loop) with
      | nil => exact (if_pos rfl).trans (if_pos jumps).symm
      | cons _ _ => exact if_neg (cons_ne_nil _ _)
    rw [if_neg fun both => jumps both.2]
    cases preds.filter (fun edge => edge.source ∉ loop) with
    | nil => exact (if_neg jumps).symm
    | cons _ _ => rfl

theorem naturalPreheader_eq_some_iff (distinct : edges.Nodup) (loop : Finset (Fin (m + 1)))
    (header p : Fin (m + 1)) :
    naturalPreheader edges loop header = some p ↔ IsPreheader edges loop header p := by
  have outside : ∀ q, (⟨q, header⟩ : Edge m) ∈ (predList edges header).filter
      (fun edge => edge.source ∉ loop) ↔ Follows edges q header ∧ q ∉ loop := by
    intro q
    rw [mem_filter, mem_predList, decide_eq_true_iff]
    exact ⟨fun both => ⟨both.1.1, both.2⟩, fun both => ⟨⟨both.1, rfl⟩, both.2⟩⟩
  have target : ∀ edge ∈ (predList edges header).filter (fun edge => edge.source ∉ loop),
      edge = ⟨edge.source, header⟩ := by
    rintro ⟨source, target⟩ member
    obtain ⟨-, rfl⟩ := mem_predList.mp (mem_filter.mp member).1
    rfl
  have single : (predList edges header).filter (fun edge => edge.source ∉ loop) = [⟨p, header⟩] ↔
      Follows edges p header ∧ p ∉ loop ∧ ∀ q, Follows edges q header → q ∉ loop → q = p := by
    have once : ((predList edges header).filter fun edge => edge.source ∉ loop).Nodup :=
      (distinct.filter _).filter _
    rw [eq_singleton_iff once, outside, and_assoc]
    apply and_congr Iff.rfl
    apply and_congr Iff.rfl
    constructor
    · intro only q follows aside
      exact congrArg Edge.source (only _ ((outside q).mpr ⟨follows, aside⟩))
    intro only edge member
    have shape := target edge member
    rw [shape] at member ⊢
    obtain ⟨follows, aside⟩ := (outside _).mp member
    rw [only _ follows aside]
  rw [naturalPreheader, (preheaderLoop_spec loop header _).2, IsPreheader, ← single]
  constructor
  · intro found
    split at found
    · rename_i edge one
      split at found
      · rename_i jumps
        cases found
        have shape := target edge (one ▸ mem_singleton_self edge)
        rw [one, ← shape]
        refine ⟨rfl, (onlyJumps_iff distinct ?_).mp jumps⟩
        exact ((outside _).mp (shape ▸ one ▸ mem_singleton_self edge)).1
      · cases found
    · cases found
  rintro ⟨one, only⟩
  have follows := ((outside p).mp (one ▸ mem_singleton_self _)).1
  rw [one]
  exact if_pos ((onlyJumps_iff distinct follows).mpr only)

theorem mem_exitsOf {loop : Finset (Fin (m + 1))} {x : Fin (m + 1)} :
    x ∈ exitsOf edges loop ↔ x ≠ 0 ∧ x ∈ loop ∧ ∃ v, Follows edges x v ∧ v ∉ loop := by
  have leaves : (succList edges x).any (fun edge => edge.target ∉ loop) = true ↔
      ∃ v, Follows edges x v ∧ v ∉ loop := by
    rw [any_eq_true]
    constructor
    · rintro ⟨edge, member, aside⟩
      obtain ⟨within, rfl⟩ := mem_succList.mp member
      exact ⟨edge.target, within, of_decide_eq_true aside⟩
    · rintro ⟨v, follows, aside⟩
      exact ⟨⟨x, v⟩, mem_succList.mpr ⟨follows, rfl⟩, decide_eq_true aside⟩
  have fold : ∀ (is : List (Fin (m + 1))) (exits : Finset (Fin (m + 1))),
      x ∈ is.foldl (fun exits i =>
          if i ∈ loop ∧ (succList edges i).any (fun edge => edge.target ∉ loop) then
            insert i exits
          else exits) exits ↔
        x ∈ exits ∨ x ∈ is ∧ x ∈ loop ∧ ∃ v, Follows edges x v ∧ v ∉ loop := by
    intro is
    induction is with
    | nil =>
      intro exits
      exact ⟨.inl, fun either => either.resolve_right fun both => not_mem_nil both.1⟩
    | cons i is ih =>
      intro exits
      rw [foldl_cons, ih, mem_cons]
      split
      · rename_i both
        rw [Finset.mem_insert]
        constructor
        · rintro ((rfl | old) | ⟨later, rest⟩)
          · exact .inr ⟨.inl rfl, both.1, leaves.mp both.2⟩
          · exact .inl old
          · exact .inr ⟨.inr later, rest⟩
        rintro (old | ⟨rfl | later, rest⟩)
        · exact .inl (.inr old)
        · exact .inl (.inl rfl)
        · exact .inr ⟨later, rest⟩
      rename_i neither
      constructor
      · rintro (old | ⟨later, rest⟩)
        · exact .inl old
        · exact .inr ⟨.inr later, rest⟩
      rintro (old | ⟨rfl | later, rest⟩)
      · exact .inl old
      · exact absurd ⟨rest.1, leaves.mpr rest.2⟩ neither
      · exact .inr ⟨later, rest⟩
  rw [exitsOf, fold, mem_indices_tail]
  exact ⟨fun either => either.resolve_left (Finset.notMem_empty x), .inr⟩

/-- What is recorded for an edge back to a dominator. -/
structure Records (edges : List (Edge m)) (info : LoopInfo m) (e : Edge m) : Prop where
  header : info.header = e.target
  loop : ∀ x, x ∈ info.loop ↔ NaturalLoop edges e x
  exits : ∀ x, x ∈ info.exits ↔ x ≠ 0 ∧ x ∈ info.loop ∧ ∃ v, Follows edges x v ∧ v ∉ info.loop
  preheader : ∀ p, info.preheader = some p ↔ IsPreheader edges info.loop info.header p

theorem markLoop_spec (distinct : edges.Nodup) (marked : Marked m) (e : Edge m) :
    ∃ next info, markLoop edges marked e = some next ∧ next.loops = marked.loops ++ [info] ∧
      Records edges info e ∧ info.depth = marked.depths e.source + 1 := by
  unfold markLoop
  by_cases same : e.target = e.source
  · rw [if_pos same]
    refine ⟨_, _, rfl, rfl, ⟨rfl, ?_, fun x => mem_exitsOf,
      naturalPreheader_eq_some_iff distinct _ _⟩, ?_⟩
    · intro x
      rw [naturalLoop_self same, ← same]
      simp
    · exact update_self _ _ _
  rw [if_neg same]
  obtain ⟨result, run, searched⟩ := @searchPredecessorsNotIn_spec m edges (m + 2) e.source
    (insert e.target {e.source}, deepen (deepen marked.depths e.source) e.target)
    (remaining_lt _)
  rw [run]
  refine ⟨_, _, rfl, rfl, ⟨rfl, searched_naturalLoop same searched, fun x => mem_exitsOf,
    naturalPreheader_eq_some_iff distinct _ _⟩, ?_⟩
  have kept := searched.depths e.source (Finset.mem_insert_of_mem (Finset.mem_singleton_self _))
  dsimp only at kept ⊢
  rw [kept, deepen, update_of_ne fun equal => same equal.symm]
  exact update_self _ _ _

def backEdges (edges : List (Edge m)) (dominators : Sets m) : List (Edge m) :=
  (allEdges edges).filter fun e => e.target ∈ dominators e.source

theorem foldlM_markEdge_spec (distinct : edges.Nodup) (dominators : Sets m) (es : List (Edge m))
    (marked : Marked m) : ∃ next infos, es.foldlM (markEdge edges dominators) marked = some next ∧
      next.loops = marked.loops ++ infos ∧
      List.Forall₂ (Records edges) infos (es.filter fun e => e.target ∈ dominators e.source) ∧
      ∀ info, infos = [info] → (∀ x, marked.depths x = 0) → info.depth = 1 := by
  induction es generalizing marked with
  | nil => exact ⟨marked, [], rfl, (append_nil _).symm, .nil, nofun⟩
  | cons e es ih =>
    rw [foldlM_cons, markEdge]
    by_cases back : e.target ∈ dominators e.source
    · obtain ⟨middle, info, first, loops, records, depth⟩ := markLoop_spec distinct marked e
      obtain ⟨next, infos, run, later, each, -⟩ := ih middle
      have kept : (e :: es).filter (fun e => e.target ∈ dominators e.source) =
          e :: es.filter fun e => e.target ∈ dominators e.source :=
        filter_cons_of_pos (decide_eq_true back)
      rw [if_pos back, first, kept]
      refine ⟨next, info :: infos, run, ?_, .cons records each, ?_⟩
      · rw [later, loops, append_assoc]
        rfl
      intro only single zero
      cases single
      rw [depth, zero]
    have skipped : (e :: es).filter (fun e => e.target ∈ dominators e.source) =
        es.filter fun e => e.target ∈ dominators e.source :=
      filter_cons_of_neg (by simpa using back)
    rw [if_neg back, skipped]
    exact ih marked

end

section

/-- The pairs that stand in the wrong order. -/
def inversions : List (LoopInfo m) → Nat
  | [] => 0
  | li :: loops => (loops.countP fun other => li.size < other.size) + inversions loops

variable (loops : List (LoopInfo m))

theorem sortRound_perm : (sortRound loops).1.Perm loops := by
  fun_induction sortRound loops with
  | case1 => exact .refl _
  | case2 => exact .refl _
  | case3 li next rest _ ih =>
    exact (ih.cons next).trans (.swap li next rest)
  | case4 li next rest _ ih => exact ih.cons li

theorem sortRound_inversions : inversions (sortRound loops).1 ≤ inversions loops ∧
      ((sortRound loops).2 = true → inversions (sortRound loops).1 < inversions loops) := by
  fun_induction sortRound loops with
  | case1 | case2 => exact ⟨le_rfl, nofun⟩
  | case3 li next rest smaller ih =>
    have counted := (sortRound_perm (li :: rest)).countP_eq fun other => next.size < other.size
    have less : ¬next.size < li.size := smaller.le.not_gt
    have behind := ih.1
    simp only [inversions, countP_cons, smaller, less, decide_true, decide_false,
      Bool.false_eq_true, if_true, if_false] at counted behind ⊢
    constructor
    · omega
    · intro _
      omega
  | case4 li next rest ordered ih =>
    have counted := (sortRound_perm (next :: rest)).countP_eq fun other => li.size < other.size
    simp only [inversions] at ih ⊢
    rw [counted]
    constructor
    · exact Nat.add_le_add_left ih.1 _
    · exact fun changed => Nat.add_lt_add_left (ih.2 changed) _

theorem inversions_le : inversions loops ≤ loops.length * loops.length := by
  induction loops with
  | nil => exact le_refl 0
  | cons li loops ih =>
    have counted := @List.countP_le_length _ (fun other : LoopInfo m => li.size < other.size) loops
    rw [inversions, length_cons, Nat.add_mul, Nat.mul_add]
    omega

theorem sortLoop_terminates {rounds : Nat} {loops : List (LoopInfo m)}
    (fuel : inversions loops < rounds) :
    ∃ result, sortLoop rounds loops = some result ∧ result.Perm loops := by
  induction rounds generalizing loops with
  | zero => exact absurd fuel (not_lt_zero _)
  | succ rounds ih =>
    rw [sortLoop]
    have round := sortRound_perm loops
    by_cases changed : (sortRound loops).2 = true
    · have less := (sortRound_inversions loops).2 changed
      obtain ⟨result, run, perm⟩ := ih (less.trans_le (le_of_lt_succ fuel))
      rw [if_pos changed]
      exact ⟨result, run, perm.trans round⟩
    · rw [if_neg changed]
      exact ⟨_, rfl, round⟩

/-- The smallest loop, the last one of its size, and the others. -/
def Smallest (loops : List (LoopInfo m)) (li : LoopInfo m) (others : List (LoopInfo m)) : Prop :=
  ∃ before after, loops = before ++ li :: after ∧ (before ++ after).Perm others ∧
    (∀ other ∈ before, li.size ≤ other.size) ∧ ∀ other ∈ after, li.size < other.size

variable {loops : List (LoopInfo m)} {others : List (LoopInfo m)} {li : LoopInfo m}

theorem Smallest.sortRound (smallest : Smallest loops li others) :
    ∃ front, (sortRound loops).1 = front ++ [li] ∧ front.Perm others := by
  obtain ⟨before, after, rfl, perm, notSmaller, larger⟩ := smallest
  -- from the smallest on, everything else moves one place to the front
  have carried : (Imcc.sortRound (li :: after)).1 = after ++ [li] := by
    clear perm
    induction after with
    | nil =>
      rw [Imcc.sortRound]
      rfl
    | cons next after ih =>
      rw [Imcc.sortRound, if_pos (larger next mem_cons_self)]
      exact congrArg (next :: ·) (ih (forall_mem_cons.mp larger).2)
  have whole : ∀ before : List (LoopInfo m), (∀ other ∈ before, li.size ≤ other.size) →
      ∃ front, (Imcc.sortRound (before ++ li :: after)).1 = front ++ [li] ∧
        front.Perm (before ++ after) := by
    intro before
    induction h : before.length generalizing before with
    | zero =>
      intro _
      rw [length_eq_zero_iff.mp h]
      exact ⟨after, carried, .refl _⟩
    | succ n ih =>
      intro notSmaller
      cases before with
      | nil => cases h
      | cons first before =>
        cases before with
        | nil =>
          have ordered : ¬first.size < li.size := (notSmaller first mem_cons_self).not_gt
          refine ⟨first :: after, ?_, .refl _⟩
          change (Imcc.sortRound (first :: li :: after)).1 = _
          rw [Imcc.sortRound, if_neg ordered]
          exact congrArg (first :: ·) carried
        | cons second before =>
          have length := Nat.succ.inj h
          change ∃ front, (Imcc.sortRound (first :: second :: (before ++ li :: after))).1 = _ ∧ _
          rw [Imcc.sortRound]
          by_cases smaller : first.size < second.size
          · obtain ⟨front, run, perm⟩ := ih (first :: before) length
              fun other member => by
                rcases mem_cons.mp member with rfl | later
                · exact notSmaller _ mem_cons_self
                · exact notSmaller _ (mem_cons_of_mem _ (mem_cons_of_mem _ later))
            rw [if_pos smaller]
            exact ⟨second :: front, congrArg (second :: ·) run,
              (perm.cons second).trans (.swap first second (before ++ after))⟩
          obtain ⟨front, run, perm⟩ := ih (second :: before) length
            (forall_mem_cons.mp notSmaller).2
          rw [if_neg smaller]
          exact ⟨first :: front, congrArg (first :: ·) run, perm.cons first⟩
  obtain ⟨front, run, same⟩ := whole before notSmaller
  exact ⟨front, run, same.trans perm⟩

theorem Smallest.sortLoop {rounds : Nat} {result : List (LoopInfo m)}
    (smallest : Smallest loops li others) (run : sortLoop rounds loops = some result) :
    ∃ front, result = front ++ [li] ∧ front.Perm others := by
  induction rounds generalizing loops with
  | zero => cases run
  | succ rounds ih =>
    obtain ⟨front, round, perm⟩ := smallest.sortRound
    rw [Imcc.sortLoop, round] at run
    by_cases changed : (Imcc.sortRound loops).2 = true
    · rw [if_pos changed] at run
      apply ih _ run
      refine ⟨front, [], rfl, by rwa [append_nil], ?_, ?_⟩
      · intro other member
        obtain ⟨before, after, -, whole, notSmaller, larger⟩ := smallest
        rcases mem_append.mp ((whole.trans perm.symm).mem_iff.mpr member) with early | late
        · exact notSmaller other early
        · exact le_of_lt (larger other late)
      · exact nofun
    · rw [if_neg changed] at run
      cases run
      exact ⟨front, rfl, perm⟩

theorem exists_smallest (some_ : loops ≠ []) : ∃ li others, Smallest loops li others := by
  induction loops with
  | nil => exact absurd rfl some_
  | cons first loops ih =>
    by_cases empty : loops = []
    · subst empty
      exact ⟨first, [], [], [], rfl, .refl _, nofun, nofun⟩
    obtain ⟨li, others, before, after, rfl, perm, notSmaller, larger⟩ := ih empty
    by_cases smaller : first.size < li.size
    · refine ⟨first, _, [], before ++ li :: after, rfl, .refl _, nofun, ?_⟩
      intro other member
      rcases mem_append.mp member with early | late
      · exact lt_of_lt_of_le smaller (notSmaller other early)
      rcases mem_cons.mp late with rfl | later
      · exact smaller
      · exact lt_trans smaller (larger other later)
    · exact ⟨li, first :: others, first :: before, after, rfl, perm.cons first,
        forall_mem_cons.mpr ⟨Nat.le_of_not_lt smaller, notSmaller⟩, larger⟩

theorem setDepths_records {edges : List (Edge m)}
    {es : List (Edge m)} (records : List.Forall₂ (Records edges) loops es) :
    List.Forall₂ (Records edges) (setDepths loops) es := by
  induction length : loops.length using Nat.strongRecOn generalizing loops es with
  | ind n ih =>
    cases records with
    | nil =>
      rw [setDepths]
      exact .nil
    | cons first rest =>
      cases rest with
      | nil =>
        rw [setDepths]
        exact .cons first .nil
      | @cons next f rest fs second later =>
        rw [setDepths]
        have deeper : List.Forall₂ (Records edges)
            ((next :: rest).map fun other => { other with depth := 1 + 1 }) (f :: fs) := by
          rw [forall₂_map_left_iff]
          exact (List.Forall₂.cons second later).imp fun _ _ records =>
            ⟨records.header, records.loop, records.exits, records.preheader⟩
        refine .cons ⟨first.header, first.loop, first.exits, first.preheader⟩ ?_
        apply ih _ _ deeper rfl
        rw [← length]
        simp

theorem setDepths_append (front : List (LoopInfo m)) (li : LoopInfo m) :
    setDepths (front ++ [li]) = front.map (fun other => { other with depth := 1 }) ++
      [if front = [] then li else { li with depth := 2 }] := by
  induction length : front.length using Nat.strongRecOn generalizing front li with
  | ind n ih =>
    match front with
    | [] =>
      change setDepths [li] = [li]
      rw [setDepths]
    | [first] =>
      change setDepths [first, li] = _
      rw [setDepths]
      change _ :: setDepths [_] = _
      rw [setDepths]
      rfl
    | first :: second :: front =>
      change setDepths (first :: second :: (front ++ [li])) = _
      rw [setDepths, if_neg (cons_ne_nil _ _)]
      have shorter : (second :: front).length < n := by
        rw [← length]
        exact lt_succ_self _
      have rest := ih _ shorter
        ((second :: front).map fun other => { other with depth := 1 + 1 })
        { li with depth := 1 + 1 } (by rw [length_map])
      rw [if_neg (by simp)] at rest
      have split :
          (second :: (front ++ [li])).map (fun other => { other with depth := 1 + 1 }) =
          (second :: front).map (fun other => { other with depth := 1 + 1 }) ++
            [({ li with depth := 1 + 1 } : LoopInfo m)] := by
        rw [← cons_append, map_append]
        rfl
      rw [split, rest, map_map]
      rfl

end

section

/-- How many of the sets contain the set. -/
def containers (sets : List (Finset (Fin (m + 1)))) (s : Finset (Fin (m + 1))) : Nat :=
  sets.countP fun other => s ⊆ other

/-- The depth of a loop is the number of loops that contain it. -/
def DepthsExact (loops : List (LoopInfo m)) : Prop :=
  ∀ info ∈ loops, info.depth = containers (loops.map LoopInfo.loop) info.loop

/-- All blocks with a successor outside are exits. -/
def ExitsExact (edges : List (Edge m)) (loops : List (LoopInfo m)) : Prop :=
  ∀ info ∈ loops, ∀ x, x ∈ info.exits ↔ x ∈ info.loop ∧ ∃ v, Follows edges x v ∧ v ∉ info.loop

/-- At most one set, or the last smallest one is in one other set and nothing else nests. -/
def OneNested (sets : List (Finset (Fin (m + 1)))) : Prop :=
  sets.length ≤ 1 ∨ ∃ before s after, sets = before ++ s :: after ∧
    (∀ t ∈ before, s.card ≤ t.card) ∧ (∀ t ∈ after, s.card < t.card) ∧
    containers sets s = 2 ∧ ∀ t ∈ before ++ after, containers sets t = 1

/-- The depths after the sorting, where the smallest loop is the last one. -/
theorem depthsExact_append {front : List (LoopInfo m)} (some_ : front ≠ []) (li : LoopInfo m) :
    DepthsExact (setDepths (front ++ [li])) ↔
      (∀ info ∈ front, containers ((front ++ [li]).map LoopInfo.loop) info.loop = 1) ∧
        containers ((front ++ [li]).map LoopInfo.loop) li.loop = 2 := by
  have same : (setDepths (front ++ [li])).map LoopInfo.loop =
      (front ++ [li]).map LoopInfo.loop := by
    rw [setDepths_append, if_neg some_, map_append, map_append, map_map]
    rfl
  rw [DepthsExact, same, setDepths_append, if_neg some_]
  constructor
  · intro exactly
    constructor
    · intro info member
      exact (exactly _ (mem_append_left _ (mem_map_of_mem member))).symm
    · exact (exactly _ (mem_append_right _ (mem_singleton_self _))).symm
  rintro ⟨one, two⟩ info member
  rcases mem_append.mp member with early | last
  · obtain ⟨other, within, rfl⟩ := mem_map.mp early
    exact (one other within).symm
  · rw [mem_singleton.mp last]
    exact two.symm

theorem containers_perm {left right : List (LoopInfo m)} (perm : left.Perm right)
    (s : Finset (Fin (m + 1))) :
    containers (left.map LoopInfo.loop) s = containers (right.map LoopInfo.loop) s :=
  (perm.map LoopInfo.loop).countP_eq _

theorem depthsExact_iff {rounds : Nat} {loops result : List (LoopInfo m)}
    (sizes : ∀ info ∈ loops, info.size = info.loop.card)
    (only : ∀ info, loops = [info] → info.depth = 1) (perm : result.Perm loops)
    (run : sortLoop rounds loops = some result) :
    DepthsExact (setDepths result) ↔ OneNested (loops.map LoopInfo.loop) := by
  -- for any way to take out the smallest loop
  have split : ∀ {li : LoopInfo m} {others : List (LoopInfo m)}, Smallest loops li others →
      others ≠ [] → (DepthsExact (setDepths result) ↔
        (∀ info ∈ others, containers (loops.map LoopInfo.loop) info.loop = 1) ∧
          containers (loops.map LoopInfo.loop) li.loop = 2) := by
    intro li others smallest several
    obtain ⟨front, rfl, same⟩ := smallest.sortLoop run
    have some_ : front ≠ [] := by
      rintro rfl
      exact several same.nil_eq.symm
    rw [depthsExact_append some_]
    simp only [containers_perm perm, same.mem_iff]
  cases loops with
  | nil =>
    rw [perm.eq_nil, setDepths]
    exact ⟨fun _ => .inl (zero_le 1), fun _ _ none => absurd none not_mem_nil⟩
  | cons first loops =>
    cases loops with
    | nil =>
      have depth := only first rfl
      rw [perm_singleton.mp perm, setDepths]
      refine ⟨fun _ => .inl (le_refl 1), ?_⟩
      intro _ info member
      rw [mem_singleton.mp member, depth]
      simp [containers]
    | cons second rest =>
      constructor
      · intro exactly
        right
        obtain ⟨li, others, smallest⟩ := exists_smallest (cons_ne_nil first (second :: rest))
        have smallestToo := smallest
        obtain ⟨before, after, whole, same, notSmaller, larger⟩ := smallest
        have several : others ≠ [] := by
          rintro rfl
          have length := congrArg length whole
          have none := same.length_eq
          simp only [length_append, length_cons, length_nil] at length none
          omega
        obtain ⟨one, two⟩ := (split smallestToo several).mp exactly
        have size : ∀ info ∈ before ++ li :: after, info.size = info.loop.card :=
          fun info member => sizes info (whole ▸ member)
        have liSize := size li (mem_append_right _ mem_cons_self)
        refine ⟨before.map LoopInfo.loop, li.loop, after.map LoopInfo.loop, ?_, ?_, ?_, two, ?_⟩
        · rw [whole, map_append, map_cons]
        · intro t member
          obtain ⟨info, within, rfl⟩ := mem_map.mp member
          rw [← liSize, ← size info (mem_append_left _ within)]
          exact notSmaller info within
        · intro t member
          obtain ⟨info, within, rfl⟩ := mem_map.mp member
          rw [← liSize, ← size info (mem_append_right _ (mem_cons_of_mem _ within))]
          exact larger info within
        intro t member
        rw [← map_append] at member
        obtain ⟨info, within, rfl⟩ := mem_map.mp member
        exact one info (same.mem_iff.mp within)
      · rintro (few | ⟨before, s, after, whole, notSmaller, larger, two, one⟩)
        · rw [length_map, length_cons, length_cons] at few
          omega
        obtain ⟨before, tail, loops, rfl, mapped⟩ := map_eq_append_iff.mp whole
        obtain ⟨li, after, rfl, rfl, rfl⟩ := map_eq_cons_iff.mp mapped
        have size : ∀ info ∈ before ++ li :: after, info.size = info.loop.card :=
          fun info member => sizes info (loops ▸ member)
        have liSize := size li (mem_append_right _ mem_cons_self)
        have smallest : Smallest (first :: second :: rest) li (before ++ after) := by
          refine ⟨before, after, loops, .refl _, ?_, ?_⟩
          · intro other member
            rw [liSize, size other (mem_append_left _ member)]
            exact notSmaller _ (mem_map_of_mem member)
          intro other member
          rw [liSize, size other (mem_append_right _ (mem_cons_of_mem _ member))]
          exact larger _ (mem_map_of_mem member)
        have several : before ++ after ≠ [] := by
          intro empty
          obtain ⟨rfl, rfl⟩ := append_eq_nil_iff.mp empty
          cases loops
        apply (split smallest several).mpr ⟨_, two⟩
        intro info member
        apply one
        rw [← map_append]
        exact mem_map_of_mem member

variable {es : List (Edge m)} {loops : List (LoopInfo m)}

theorem mem_allEdges : e ∈ allEdges edges ↔ e ∈ edges := by
  rw [allEdges, mem_flatMap]
  constructor
  · rintro ⟨i, -, member⟩
    exact (mem_succList.mp member).1
  · intro member
    exact ⟨e.source, mem_indices _, mem_succList.mpr ⟨member, rfl⟩⟩

theorem allEdges_nodup (distinct : edges.Nodup) : (allEdges edges).Nodup := by
  apply nodup_flatMap.mpr
  constructor
  · exact fun i _ => distinct.filter _
  apply (nodup_finRange (m + 1)).imp
  intro i j differ
  rw [Function.onFun, disjoint_left]
  intro e one two
  exact differ ((mem_succList.mp one).2.symm.trans (mem_succList.mp two).2)

open Classical in
noncomputable def naturalLoopSet (edges : List (Edge m)) (e : Edge m) : Finset (Fin (m + 1)) :=
  Finset.univ.filter (NaturalLoop edges e)

theorem Records.loop_eq {info : LoopInfo m}
    (records : Records edges info e) : info.loop = naturalLoopSet edges e := by
  classical
  ext x
  rw [records.loop]
  unfold naturalLoopSet
  constructor
  · intro inside
    exact Finset.mem_filter.mpr ⟨Finset.mem_univ x, inside⟩
  · intro member
    exact (Finset.mem_filter.mp member).2

theorem map_loop_eq (records : List.Forall₂ (Records edges) loops es) :
    loops.map LoopInfo.loop = es.map (naturalLoopSet edges) := by
  induction records with
  | nil => rfl
  | cons first _ ih =>
    rw [map_cons, map_cons, first.loop_eq, ih]

theorem exitsExact_iff (records : List.Forall₂ (Records edges) loops es) : ExitsExact edges loops ↔
      ∀ e ∈ es, NaturalLoop edges e 0 → ∀ v, Follows edges 0 v → NaturalLoop edges e v := by
  rw [ExitsExact]
  induction records with
  | nil => exact ⟨nofun, nofun⟩
  | @cons info e infos es first _ ih =>
    rw [forall_mem_cons, forall_mem_cons, ih]
    apply and_congr _ Iff.rfl
    constructor
    · intro exactly inside v follows
      by_contra outside
      rw [← first.loop] at inside outside
      exact ((first.exits 0).mp ((exactly 0).mpr ⟨inside, v, follows, outside⟩)).1 rfl
    intro closed x
    rw [first.exits]
    constructor
    · exact fun all => all.2
    rintro ⟨inside, v, follows, outside⟩
    refine ⟨?_, inside, v, follows, outside⟩
    rintro rfl
    rw [first.loop] at inside outside
    exact outside (closed inside v follows)

/-- On every graph that `build_cfg` builds, `find_loops` records the natural loop of every edge
back to a dominator, with its preheader. The exits are exact if no loop around the first block can
be left from there; the depths are if at most the smallest loop is nested, in one other one. -/
theorem loops_exact_iff (bb : Fin (m + 1) → BasicBlock m) :
    ∃ edges dominators loops order, buildCfg bb = some edges ∧
      computeDominators edges = some dominators ∧ findLoops edges dominators = some loops ∧
      order.Nodup ∧ (∀ e, e ∈ order ↔ e ∈ edges ∧ Dominates (Follows edges) 0 e.target e.source) ∧
      List.Forall₂ (Records edges) loops order ∧ (ExitsExact edges loops ↔
        ∀ e ∈ order, NaturalLoop edges e 0 → ∀ v, Follows edges 0 v → NaturalLoop edges e v) ∧
      (DepthsExact loops ↔
        OneNested ((backEdges edges dominators).map (naturalLoopSet edges))) := by
  obtain ⟨edges, built, decoupled⟩ := buildCfg_decoupled bb
  obtain ⟨dominators, computed, sets⟩ := computeDominators_spec decoupled
  have distinct := buildCfg_nodup built
  obtain ⟨marked, infos, run, loops, records, depth⟩ :=
    foldlM_markEdge_spec distinct dominators (allEdges edges) ⟨[], fun _ => 0⟩
  rw [nil_append] at loops
  have sized : List.Forall₂ (Records edges)
      (infos.map fun li => { li with size := li.loop.card }) (backEdges edges dominators) := by
    rw [forall₂_map_left_iff]
    exact records.imp fun _ _ records =>
      ⟨records.header, records.loop, records.exits, records.preheader⟩
  obtain ⟨sorted, sort, perm⟩ := @sortLoop_terminates m (infos.length * infos.length + 1)
    (infos.map fun li => { li with size := li.loop.card }) (by
      have bound := inversions_le (infos.map fun li => { li with size := li.loop.card })
      rw [length_map] at bound
      exact lt_succ_of_le bound)
  obtain ⟨order, ordered, same⟩ := perm_comp_forall₂ perm sized
  have found : findLoops edges dominators = some (setDepths sorted) := by
    rw [findLoops, run]
    change sortLoops marked.loops = _
    rw [loops, sortLoops, sort]
    rfl
  have final := setDepths_records ordered
  refine ⟨edges, dominators, setDepths sorted, order, built, computed, found, ?_, ?_, final,
    exitsExact_iff final, ?_⟩
  · exact same.nodup_iff.mpr ((allEdges_nodup distinct).filter _)
  · intro e
    rw [same.mem_iff, backEdges, mem_filter, mem_allEdges, decide_eq_true_iff]
    apply and_congr_right
    intro member
    exact sets e.source (decoupled.entered (show Follows edges e.source e.target from member)) _
  rw [← map_loop_eq sized]
  apply depthsExact_iff _ _ perm sort
  · intro info member
    obtain ⟨other, -, rfl⟩ := mem_map.mp member
    rfl
  intro info only
  obtain ⟨other, single, rfl⟩ := map_eq_singleton_iff.mp only
  exact depth other single fun _ => rfl

end

/-- Two blocks that branch to themselves, and the block behind them. -/
def twoLoops : Fin 3 → BasicBlock 2 := fun i =>
  ⟨false, false, if i = 2 then .nowhere else .label (some i)⟩

/-- The loop of the first block has no exit, and one of two disjoint loops has depth 2. -/
theorem loops_misses_first : ∃ edges dominators loops, buildCfg twoLoops = some edges ∧
    computeDominators edges = some dominators ∧ findLoops edges dominators = some loops ∧
    ¬ExitsExact edges loops ∧ ¬DepthsExact loops := by
  have built : buildCfg twoLoops = some [⟨1, 2⟩, ⟨1, 1⟩, ⟨0, 1⟩, ⟨0, 0⟩] := by decide
  have marked : ∃ dominators depths,
      computeDominators [⟨1, 2⟩, ⟨1, 1⟩, ⟨0, 1⟩, (⟨0, 0⟩ : Edge 2)] = some dominators ∧
      (allEdges [⟨1, 2⟩, ⟨1, 1⟩, ⟨0, 1⟩, (⟨0, 0⟩ : Edge 2)]).foldlM
        (markEdge [⟨1, 2⟩, ⟨1, 1⟩, ⟨0, 1⟩, ⟨0, 0⟩] dominators) ⟨[], fun _ => 0⟩ =
        some ⟨[⟨{0}, ∅, 1, 0, none, 0⟩, ⟨{1}, {1}, 1, 1, none, 0⟩], depths⟩ := ⟨_, _, rfl, rfl⟩
  obtain ⟨dominators, depths, computed, run⟩ := marked
  have follows : Follows [⟨1, 2⟩, ⟨1, 1⟩, ⟨0, 1⟩, (⟨0, 0⟩ : Edge 2)] 0 1 := by
    show (⟨0, 1⟩ : Edge 2) ∈ _
    decide
  have found : findLoops [⟨1, 2⟩, ⟨1, 1⟩, ⟨0, 1⟩, ⟨0, 0⟩] dominators =
      some [⟨{0}, ∅, 1, 0, none, 1⟩, ⟨{1}, {1}, 2, 1, none, 1⟩] := by
    rw [findLoops, run]
    change sortLoops _ = _
    simp [sortLoops, sortLoop, sortRound, setDepths]
  refine ⟨_, dominators, _, built, computed, found, ?_, ?_⟩
  · intro exits
    have missing := (exits _ mem_cons_self 0).mpr
      ⟨Finset.mem_singleton_self 0, 1, follows, by decide⟩
    exact absurd missing (by decide)
  · intro depths
    exact absurd (depths _ (mem_cons_of_mem _ mem_cons_self)) (by decide)

end RakudoStar.Imcc
