import Mathlib.Algebra.Order.BigOperators.Group.Finset
import RakudoStar.Imcc.Cfg

/-!
# Dominators of control-flow graphs

The rounds of `compute_dominators` end at the dominators, and the search finds the closest
strict one. The walks of the frontiers are right unless a block that is not reached leads to a
reached one, or a reached one back to the first block.
-/

namespace RakudoStar.Imcc

open Foundation List Nat Function

variable {m : Nat} {edges : List (Edge m)}

/-- There is an edge between the blocks. -/
def Follows (edges : List (Edge m)) (u v : Fin (m + 1)) : Prop := ⟨u, v⟩ ∈ edges

theorem mem_predList {bb : Fin (m + 1)} {edge : Edge m} :
    edge ∈ predList edges bb ↔ edge ∈ edges ∧ edge.target = bb := by
  rw [predList, mem_filter, decide_eq_true_iff]

theorem mem_indices (i : Fin (m + 1)) : i ∈ indices m := mem_finRange i

theorem mem_indices_tail {i : Fin (m + 1)} : i ∈ (indices m).tail ↔ i ≠ 0 := by
  rw [indices, finRange_succ, tail_cons, mem_map]
  constructor
  · rintro ⟨j, -, rfl⟩
    exact Fin.succ_ne_zero j
  intro other
  obtain ⟨j, rfl⟩ := Fin.exists_succ_eq.mpr other
  exact ⟨j, mem_finRange j, rfl⟩

/-- A block other than the first one that has successors has predecessors. -/
def Decoupled (edges : List (Edge m)) : Prop :=
  ∀ j, j ≠ firstBlock m → predList edges j = [] → ∀ edge ∈ edges, edge.source ≠ j

theorem decouple_sublist (edges : List (Edge m)) (j : Fin (m + 1)) :
    (decouple edges j).Sublist edges := by
  unfold decouple
  split
  · exact filter_sublist
  · exact List.Sublist.refl edges

theorem foldl_decouple_sublist (js : List (Fin (m + 1))) (edges : List (Edge m)) :
    (js.foldl decouple edges).Sublist edges := by
  induction js generalizing edges with
  | nil => exact List.Sublist.refl edges
  | cons j js ih =>
    exact (ih (decouple edges j)).trans (decouple_sublist edges j)

theorem decouple_eq_of_length {js : List (Fin (m + 1))}
    (same : edges.length ≤ (js.foldl decouple edges).length) :
    js.foldl decouple edges = edges ∧ ∀ j ∈ js, decouple edges j = edges := by
  induction js with
  | nil => exact ⟨rfl, nofun⟩
  | cons j js ih =>
    have first := decouple_sublist edges j
    have later := foldl_decouple_sublist js (decouple edges j)
    have whole : decouple edges j = edges := first.eq_of_length_le (same.trans later.length_le)
    rw [foldl_cons, whole] at same ⊢
    obtain ⟨unchanged, each⟩ := ih same
    exact ⟨unchanged, forall_mem_cons.mpr ⟨whole, each⟩⟩

theorem decoupled_of_round (same : edges.length ≤ (decoupleRound edges).length) :
    decoupleRound edges = edges ∧ Decoupled edges := by
  obtain ⟨unchanged, each⟩ := decouple_eq_of_length same
  refine ⟨unchanged, ?_⟩
  intro j other lonely edge member source
  have kept := each j (mem_indices_tail.mpr other)
  rw [decouple, if_pos lonely] at kept
  rw [← kept, mem_filter, decide_eq_true_iff] at member
  exact member.2 source

theorem decoupleLoop_spec {rounds : Nat} (fuel : edges.length < rounds) :
    ∃ result, decoupleLoop rounds edges = some result ∧ Decoupled result := by
  induction rounds generalizing edges with
  | zero => exact absurd fuel (not_lt_zero _)
  | succ rounds ih =>
    rw [decoupleLoop]
    by_cases fewer : (decoupleRound edges).length < edges.length
    · rw [if_pos fewer]
      exact ih (fewer.trans_le (le_of_lt_succ fuel))
    rw [if_neg fewer]
    obtain ⟨unchanged, decoupled⟩ := decoupled_of_round (Nat.le_of_not_lt fewer)
    rw [unchanged]
    exact ⟨edges, rfl, decoupled⟩

theorem buildCfg_decoupled (bb : Fin (m + 1) → BasicBlock m) :
    ∃ edges, buildCfg bb = some edges ∧ Decoupled edges :=
  decoupleLoop_spec (lt_succ_self _)

variable {dominators : Sets m} {b i : Fin (m + 1)}

section

variable {s : Finset (Fin (m + 1))}

theorem mem_meetPredecessors {d : Fin (m + 1)} : d ∈ meetPredecessors edges dominators i ↔
      d = i ∨ d ∈ dominators i ∧ ∀ u, Follows edges u i → d ∈ dominators u := by
  have fold : ∀ (list : List (Edge m)) (s : Finset (Fin (m + 1))),
      d ∈ list.foldl (fun s edge => s ∩ dominators edge.source) s ↔
        d ∈ s ∧ ∀ edge ∈ list, d ∈ dominators edge.source := by
    intro list
    induction list with
    | nil =>
      intro s
      exact ⟨fun member => ⟨member, nofun⟩, fun both => both.1⟩
    | cons edge list ih =>
      intro s
      rw [foldl_cons, ih, Finset.mem_inter, forall_mem_cons, and_assoc]
  rw [meetPredecessors, Finset.mem_insert, fold]
  apply or_congr Iff.rfl
  apply and_congr Iff.rfl
  constructor
  · intro all u follows
    exact all ⟨u, i⟩ (mem_predList.mpr ⟨follows, rfl⟩)
  intro all edge member
  obtain ⟨within, rfl⟩ := mem_predList.mp member
  exact all edge.source within

/-- The first block, or a block with predecessors. -/
def Entered (edges : List (Edge m)) (i : Fin (m + 1)) : Prop :=
  i = firstBlock m ∨ predList edges i ≠ []

/-- No dominator is lost. -/
structure Keeps (edges : List (Edge m)) (dominators : Sets m) : Prop where
  first : dominators 0 = {0}
  self : ∀ i, i ∈ dominators i
  all : ∀ i, Entered edges i → ∀ d, Dominates (Follows edges) 0 d i → d ∈ dominators i

theorem Decoupled.entered (decoupled : Decoupled edges) {u v : Fin (m + 1)}
    (follows : Follows edges u v) : Entered edges u := by
  by_cases first : u = 0
  · exact .inl first
  right
  intro lonely
  exact decoupled u first lonely ⟨u, v⟩ follows rfl

theorem keeps_initial : Keeps edges (initialDominators edges) where
  first := if_pos rfl
  self := by
    intro i
    unfold initialDominators
    split
    · rename_i first
      rw [first]
      exact Finset.mem_singleton_self 0
    split
    · exact Finset.mem_singleton_self i
    · exact Finset.mem_univ i
  all := by
    rintro i entered d dominates
    unfold initialDominators
    by_cases first : i = 0
    · rw [if_pos first]
      rw [first] at dominates
      exact Finset.mem_singleton.mpr (dominates_root_iff.mp dominates)
    · rw [if_neg first, if_neg (entered.resolve_left first)]
      exact Finset.mem_univ d

theorem Keeps.meet (decoupled : Decoupled edges) (keeps : Keeps edges dominators)
    (i : Fin (m + 1)) : meetPredecessors edges dominators i ⊆ dominators i ∧
      (Entered edges i → ∀ d, Dominates (Follows edges) 0 d i →
        d ∈ meetPredecessors edges dominators i) := by
  constructor
  · intro d member
    rcases mem_meetPredecessors.mp member with rfl | ⟨within, -⟩
    · exact keeps.self d
    · exact within
  intro entered d dominates
  by_cases same : d = i
  · exact mem_meetPredecessors.mpr (.inl same)
  refine mem_meetPredecessors.mpr (.inr ⟨keeps.all i entered d dominates, ?_⟩)
  intro u follows
  exact keeps.all u (decoupled.entered follows) d ((dominates.back follows).resolve_left same)

/-- How many entries the sets have. -/
def size (dominators : Sets m) : Nat := ∑ i, (dominators i).card

theorem Keeps.update (keeps : Keeps edges dominators) (other : i ≠ 0) (self : i ∈ s)
    (all : Entered edges i → ∀ d, Dominates (Follows edges) 0 d i → d ∈ s) :
    Keeps edges (Function.update dominators i s) where
  first := by
    rw [update_of_ne other.symm]
    exact keeps.first
  self := by
    intro j
    by_cases here : j = i
    · rw [here, update_self]
      exact self
    · rw [update_of_ne here]
      exact keeps.self j
  all := by
    intro j entered d dominates
    by_cases here : j = i
    · rw [here, update_self]
      exact all (here ▸ entered) d (here ▸ dominates)
    · rw [update_of_ne here]
      exact keeps.all j entered d dominates

theorem size_update_lt (smaller : s ⊂ dominators i) :
    size (Function.update dominators i s) < size dominators := by
  apply Finset.sum_lt_sum
  · intro j _
    by_cases here : j = i
    · rw [here, update_self]
      exact Finset.card_le_card smaller.subset
    · rw [update_of_ne here]
  · refine ⟨i, Finset.mem_univ i, ?_⟩
    rw [update_self]
    exact Finset.card_lt_card smaller

/-- A step keeps the dominators; it leaves everything as it is, or makes a set smaller. -/
theorem dominatorStep_spec (decoupled : Decoupled edges) (keeps : Keeps edges dominators)
    (change : Bool) (other : i ≠ 0) : Keeps edges (dominatorStep edges (dominators, change) i).1 ∧
      (dominatorStep edges (dominators, change) i = (dominators, change) ∧
          dominators i = meetPredecessors edges dominators i ∨
        (dominatorStep edges (dominators, change) i).2 = true ∧
          size (dominatorStep edges (dominators, change) i).1 < size dominators) := by
  obtain ⟨smaller, all⟩ := keeps.meet decoupled i
  unfold dominatorStep
  by_cases same : dominators i = meetPredecessors edges dominators i
  · rw [if_pos same]
    exact ⟨keeps, .inl ⟨rfl, same⟩⟩
  rw [if_neg same]
  exact ⟨keeps.update other (mem_meetPredecessors.mpr (.inl rfl)) all,
    .inr ⟨rfl, size_update_lt (smaller.ssubset_of_ne fun equal => same equal.symm)⟩⟩

/-- A round changes something and makes the sets smaller, or the sets are closed. -/
theorem foldl_dominatorStep_spec (decoupled : Decoupled edges) {js : List (Fin (m + 1))}
    (others : ∀ j ∈ js, j ≠ 0) (keeps : Keeps edges dominators) (change : Bool) :
    Keeps edges (js.foldl (dominatorStep edges) (dominators, change)).1 ∧
      (js.foldl (dominatorStep edges) (dominators, change) = (dominators, change) ∧
          (∀ j ∈ js, dominators j = meetPredecessors edges dominators j) ∨
        (js.foldl (dominatorStep edges) (dominators, change)).2 = true ∧
          size (js.foldl (dominatorStep edges) (dominators, change)).1 < size dominators) := by
  induction js generalizing dominators change with
  | nil => exact ⟨keeps, .inl ⟨rfl, nofun⟩⟩
  | cons j js ih =>
    obtain ⟨kept, first⟩ := dominatorStep_spec decoupled keeps change (others j mem_cons_self)
    have othersLater : ∀ i ∈ js, i ≠ 0 := (forall_mem_cons.mp others).2
    rw [foldl_cons]
    rcases first with ⟨unchanged, closed⟩ | ⟨changed, less⟩
    · rw [unchanged]
      obtain ⟨keptLater, later⟩ := ih othersLater keeps change
      refine ⟨keptLater, later.imp_left ?_⟩
      rintro ⟨still, closedLater⟩
      exact ⟨still, forall_mem_cons.mpr ⟨closed, closedLater⟩⟩
    obtain ⟨keptLater, later⟩ := ih othersLater kept (dominatorStep edges (dominators, change) j).2
    refine ⟨keptLater, .inr ?_⟩
    rcases later with ⟨still, -⟩ | ⟨changedLater, lessLater⟩
    · exact ⟨(congrArg Prod.snd still).trans changed,
        (congrArg (fun state => size state.1) still).le.trans_lt less⟩
    · exact ⟨changedLater, lessLater.trans less⟩

/-- Sets that a round leaves as they are. -/
def Closed (edges : List (Edge m)) (dominators : Sets m) : Prop :=
  ∀ j, j ≠ firstBlock m → dominators j = meetPredecessors edges dominators j

theorem dominatorLoop_spec (decoupled : Decoupled edges) {rounds : Nat}
    (keeps : Keeps edges dominators) (fuel : size dominators < rounds) :
    ∃ result, dominatorLoop edges rounds dominators = some result ∧ Keeps edges result ∧
      Closed edges result := by
  induction rounds generalizing dominators with
  | zero => exact absurd fuel (not_lt_zero _)
  | succ rounds ih =>
    obtain ⟨kept, result⟩ := foldl_dominatorStep_spec decoupled
      (fun j member => mem_indices_tail.mp member) keeps false
    rw [← dominatorRound] at kept result
    rw [dominatorLoop]
    rcases result with ⟨unchanged, closed⟩ | ⟨changed, less⟩
    · rw [unchanged, if_neg Bool.false_ne_true]
      exact ⟨dominators, rfl, keeps, fun j other => closed j (mem_indices_tail.mpr other)⟩
    · rw [if_pos changed]
      exact ih kept (less.trans_le (le_of_lt_succ fuel))

theorem size_le (dominators : Sets m) : size dominators ≤ (m + 1) * (m + 1) := by
  have each : ∀ i ∈ Finset.univ, (dominators i).card ≤ m + 1 := by
    intro i _
    have bound := Finset.card_le_univ (dominators i)
    rwa [Fintype.card_fin] at bound
  have total := Finset.sum_le_card_nsmul Finset.univ (fun i => (dominators i).card) (m + 1) each
  rw [Finset.card_univ, Fintype.card_fin] at total
  exact total

/-- The sets are those of the dominators, for every block with predecessors and the first one. -/
theorem mem_dominators_iff (keeps : Keeps edges dominators) (closed : Closed edges dominators)
    (entered : Entered edges b) (d : Fin (m + 1)) :
    d ∈ dominators b ↔ Dominates (Follows edges) 0 d b := by
  constructor
  · apply @dominates_of_closed _ _ _ fun b => (dominators b : Set (Fin (m + 1)))
    · intro d member
      rw [keeps.first] at member
      exact Finset.mem_singleton.mp member
    intro u v follows d member
    by_cases first : v = 0
    · rw [first, keeps.first] at member
      rw [first]
      exact .inl (Finset.mem_singleton.mp member)
    · rw [Finset.mem_coe, closed v first] at member
      exact (mem_meetPredecessors.mp member).imp_right fun both => both.2 u follows
  · exact keeps.all b entered d

theorem entered_of_reached (reached : Reached (Follows edges) 0 b) : Entered edges b := by
  obtain ⟨path, runs⟩ := reached
  cases runs with
  | root => exact .inl rfl
  | @step _ u _ _ next =>
    right
    intro lonely
    have member : (⟨u, b⟩ : Edge m) ∈ predList edges b := mem_predList.mpr ⟨next, rfl⟩
    rw [lonely] at member
    exact not_mem_nil member

theorem computeDominators_spec (decoupled : Decoupled edges) :
    ∃ dominators, computeDominators edges = some dominators ∧
      ∀ b, Entered edges b → ∀ d, d ∈ dominators b ↔ Dominates (Follows edges) 0 d b := by
  obtain ⟨dominators, run, keeps, closed⟩ :=
    dominatorLoop_spec decoupled keeps_initial (lt_succ_of_le (size_le (initialDominators edges)))
  exact ⟨dominators, run, fun b entered d => mem_dominators_iff keeps closed entered d⟩

end

section

/-- The sets of dominators of the blocks that are reached. -/
def AreDominators (edges : List (Edge m)) (dominators : Sets m) : Prop :=
  ∀ b, Reached (Follows edges) (firstBlock m) b →
    ∀ d, d ∈ dominators b ↔ Dominates (Follows edges) (firstBlock m) d b

theorem isWrong_eq_false_iff : isWrong dominators b i = false ↔
      ∀ runner ∈ dominators b, runner ≠ b → runner ≠ i → i ∉ dominators runner := by
  rw [isWrong, any_eq_false]
  simp only [decide_eq_true_eq, mem_reverse, mem_indices, true_implies]
  constructor
  · intro none runner member notB notI within
    exact none runner ⟨notB, notI, member, within⟩
  · rintro none runner ⟨notB, notI, member, within⟩
    exact none runner member notB notI within

section

variable (are : AreDominators edges dominators)

include are

section

variable (reached : Reached (Follows edges) 0 b)

include reached

theorem immediate_of_search : i ≠ b ∧ i ∈ dominators b ∧ isWrong dominators b i = false ↔
      IsImmediate (Follows edges) 0 i b := by
  rw [are b reached, isWrong_eq_false_iff]
  constructor
  · rintro ⟨other, dominates, last⟩
    refine ⟨⟨dominates, other⟩, ?_⟩
    rintro d ⟨strict, differs⟩
    by_cases same : d = i
    · rw [same]
      exact dominates_self i
    rcases strict.total reached dominates with up | down
    · exact up
    · have within := (are d (strict.reached reached) i).mpr down
      exact absurd within (last d ((are b reached d).mpr strict) differs same)
  rintro ⟨⟨dominates, other⟩, closest⟩
  refine ⟨other, dominates, ?_⟩
  intro runner member notB notI within
  have strict := (are b reached runner).mp member
  have down := (are runner (strict.reached reached) i).mp within
  have up := closest runner ⟨strict, notB⟩
  exact notI (up.antisymm (strict.reached reached) down)

theorem searchIdom_immediate (other : b ≠ 0) :
    IsImmediate (Follows edges) 0 (searchIdom dominators b) b := by
  unfold searchIdom
  cases found : (indices m).tail.reverse.find? fun i =>
      decide (i ≠ b ∧ i ∈ dominators b ∧ isWrong dominators b i = false) with
  | some i =>
    have passes := find?_some found
    rw [Option.getD_some]
    exact (immediate_of_search are reached).mp (of_decide_eq_true passes)
  | none =>
    rw [find?_eq_none] at found
    rw [Option.getD_none]
    obtain ⟨i, immediate⟩ := exists_immediate reached other
    by_cases first : i = 0
    · subst first
      exact immediate
    have listed : i ∈ (indices m).tail.reverse := mem_reverse.mpr (mem_indices_tail.mpr first)
    exact absurd (decide_eq_true ((immediate_of_search are reached).mpr immediate)) (found i listed)

theorem idomsOf_immediate (other : b ≠ 0) :
    IsImmediate (Follows edges) 0 (idomsOf dominators b) b := by
  rw [idomsOf, if_neg other]
  exact searchIdom_immediate are reached other

end

end

end

section

variable {idoms : Fin (m + 1) → Fin (m + 1)} {frontiers : Sets m} {runner : Fin (m + 1)}

/-- The walk from `p` comes to `x`, if it is not cut short. -/
inductive Climbs (idoms : Fin (m + 1) → Fin (m + 1)) (b : Fin (m + 1)) :
    Fin (m + 1) → Fin (m + 1) → Prop
  | here {p : Fin (m + 1)} (below : p ≠ idoms b) : Climbs idoms b p p
  | up {p x : Fin (m + 1)} (below : p ≠ idoms b) (other : p ≠ 0)
      (climbs : Climbs idoms b (idoms p) x) : Climbs idoms b p x

/-- Where `b` is in a frontier, it is in the next one on the walk. -/
def ClosedBut (idoms : Fin (m + 1) → Fin (m + 1)) (b : Fin (m + 1)) (frontiers : Sets m)
    (runner : Option (Fin (m + 1))) : Prop :=
  ∀ x, b ∈ frontiers x → x ≠ firstBlock m →
    idoms x = idoms b ∨ b ∈ frontiers (idoms x) ∨ some (idoms x) = runner

theorem ClosedBut.climbs (closed : ClosedBut idoms b frontiers none) {x y : Fin (m + 1)}
    (climbs : Climbs idoms b x y) (member : b ∈ frontiers x) : b ∈ frontiers y := by
  induction climbs with
  | here _ => exact member
  | @up p y below other climbs ih =>
    rcases closed p member other with arrived | later | impossible
    · cases climbs with
      | here below | up below _ _ => exact absurd arrived below
    · exact ih later
    · cases impossible

/-- What one walk, or several of them, add for `b`. -/
structure Walked (idoms : Fin (m + 1) → Fin (m + 1)) (b : Fin (m + 1)) (frontiers result : Sets m)
    (visited : Fin (m + 1) → Prop) : Prop where
  closed : ClosedBut idoms b result none
  member : ∀ y, b ∈ result y ↔ b ∈ frontiers y ∨ visited y
  others : ∀ c, c ≠ b → ∀ y, c ∈ result y ↔ c ∈ frontiers y

/-- The blocks in whose frontier `b` is not. -/
def absent (b : Fin (m + 1)) (frontiers : Sets m) : Nat :=
  (Finset.univ.filter fun x => b ∉ frontiers x).card

theorem mem_update_iff (frontiers : Sets m) (runner c y : Fin (m + 1)) :
    c ∈ Function.update frontiers runner (insert b (frontiers runner)) y ↔
      c ∈ frontiers y ∨ c = b ∧ y = runner := by
  by_cases here : y = runner
  · subst here
    rw [update_self, Finset.mem_insert, or_comm]
    simp only [and_true]
  · rw [update_of_ne here]
    simp only [here, and_false, or_false]

theorem absent_update_lt (new : b ∉ frontiers runner) :
    absent b (Function.update frontiers runner (insert b (frontiers runner))) <
      absent b frontiers := by
  apply Finset.card_lt_card
  constructor
  · intro y member
    rw [Finset.mem_filter, mem_update_iff, not_or] at member
    exact Finset.mem_filter.mpr ⟨member.1, member.2.1⟩
  intro within
  have member := within (Finset.mem_filter.mpr ⟨Finset.mem_univ runner, new⟩)
  rw [Finset.mem_filter, mem_update_iff] at member
  exact member.2 (.inr ⟨rfl, rfl⟩)

theorem walkUp_spec {steps : Nat} (fuel : absent b frontiers < steps)
    (closed : ClosedBut idoms b frontiers (some runner)) :
    ∃ result, walkUp idoms b steps runner frontiers = some result ∧
      Walked idoms b frontiers result (Climbs idoms b runner) := by
  induction steps generalizing runner frontiers with
  | zero => exact absurd fuel (not_lt_zero _)
  | succ steps ih =>
    rw [walkUp]
    by_cases arrived : runner = idoms b
    · rw [if_pos arrived]
      refine ⟨frontiers, rfl, ?_, ?_, fun _ _ _ => Iff.rfl⟩
      · intro x member other
        rcases closed x member other with top | later | now
        · exact .inl top
        · exact .inr (.inl later)
        · exact .inl ((Option.some.inj now).trans arrived)
      intro y
      refine ⟨.inl, fun either => either.resolve_right ?_⟩
      intro climbs
      cases climbs with
      | here below | up below _ _ => exact below arrived
    rw [if_neg arrived]
    by_cases before : b ∈ frontiers runner
    · have all : ClosedBut idoms b frontiers none := by
        intro x member other
        rcases closed x member other with top | later | now
        · exact .inl top
        · exact .inr (.inl later)
        · exact .inr (.inl ((Option.some.inj now) ▸ before))
      rw [if_pos before]
      refine ⟨frontiers, rfl, all, ?_, fun _ _ _ => Iff.rfl⟩
      intro y
      refine ⟨.inl, ?_⟩
      rintro (member | climbs)
      · exact member
      · exact all.climbs climbs before
    rw [if_neg before]
    by_cases first : runner = 0
    · rw [if_pos first]
      refine ⟨_, rfl, ?_, ?_, ?_⟩
      · intro x member other
        rw [mem_update_iff] at member ⊢
        have old := member.resolve_right fun both => other (both.2.trans first)
        rcases closed x old other with top | later | now
        · exact .inl top
        · exact .inr (.inl (.inl later))
        · exact .inr (.inl (.inr ⟨rfl, Option.some.inj now⟩))
      · intro y
        rw [mem_update_iff]
        apply or_congr Iff.rfl
        constructor
        · rintro ⟨-, rfl⟩
          exact .here arrived
        intro climbs
        cases climbs with
        | here _ => exact ⟨rfl, rfl⟩
        | up _ other _ => exact absurd first other
      · intro c other y
        rw [mem_update_iff]
        exact ⟨fun either => either.resolve_right fun both => other both.1, .inl⟩
    · rw [if_neg first]
      have next : ClosedBut idoms b
          (Function.update frontiers runner (insert b (frontiers runner)))
          (some (idoms runner)) := by
        intro x member other
        rw [mem_update_iff] at member ⊢
        rcases member with old | ⟨-, rfl⟩
        · rcases closed x old other with top | later | now
          · exact .inl top
          · exact .inr (.inl (.inl later))
          · exact .inr (.inl (.inr ⟨rfl, Option.some.inj now⟩))
        · exact .inr (.inr rfl)
      have less := absent_update_lt before
      obtain ⟨result, run, walked⟩ := ih (by omega) next
      refine ⟨result, run, walked.closed, ?_, ?_⟩
      · intro y
        rw [walked.member, mem_update_iff, or_assoc]
        apply or_congr Iff.rfl
        constructor
        · rintro (⟨-, rfl⟩ | climbs)
          · exact .here arrived
          · exact .up arrived first climbs
        intro climbs
        cases climbs with
        | here _ => exact .inl ⟨rfl, rfl⟩
        | up _ _ climbs => exact .inr climbs
      · intro c other y
        rw [walked.others c other, mem_update_iff]
        exact ⟨fun either => either.resolve_right fun both => other both.1, .inl⟩

theorem absent_lt (b : Fin (m + 1)) (frontiers : Sets m) : absent b frontiers < m + 2 := by
  have bound := Finset.card_le_univ (Finset.univ.filter fun x => b ∉ frontiers x)
  rw [Fintype.card_fin] at bound
  exact lt_succ_of_le bound

/-- The walks from several predecessors. -/
theorem foldlM_walkUp_spec (preds : List (Edge m)) (closed : ClosedBut idoms b frontiers none) :
    ∃ result, preds.foldlM
        (fun frontiers edge => walkUp idoms b (m + 2) edge.source frontiers) frontiers =
          some result ∧
      Walked idoms b frontiers result fun y => ∃ edge ∈ preds, Climbs idoms b edge.source y := by
  induction preds generalizing frontiers with
  | nil =>
    refine ⟨frontiers, rfl, closed, ?_, fun _ _ _ => Iff.rfl⟩
    intro y
    refine ⟨.inl, fun either => either.resolve_right ?_⟩
    rintro ⟨edge, impossible, -⟩
    exact not_mem_nil impossible
  | cons edge preds ih =>
    have start : ClosedBut idoms b frontiers (some edge.source) := by
      intro x member other
      rcases closed x member other with top | later | impossible
      · exact .inl top
      · exact .inr (.inl later)
      · cases impossible
    obtain ⟨middle, first, walked⟩ := walkUp_spec (absent_lt b frontiers) start
    obtain ⟨result, rest, later⟩ := ih walked.closed
    refine ⟨result, ?_, later.closed, ?_, ?_⟩
    · rw [foldlM_cons, first]
      exact rest
    · intro y
      rw [later.member, walked.member, or_assoc]
      simp only [mem_cons, exists_eq_or_imp]
    · intro c other y
      rw [later.others c other, walked.others c other]

/-- The walks for `b` put it in the frontier of `y`. -/
def Visits (edges : List (Edge m)) (idoms : Fin (m + 1) → Fin (m + 1)) (b y : Fin (m + 1)) : Prop :=
  2 ≤ (predList edges b).length ∧ ∃ edge ∈ predList edges b, Climbs idoms b edge.source y

theorem frontiersAt_spec (edges : List (Edge m)) (none : ∀ y, b ∉ frontiers y) :
    ∃ result, frontiersAt edges idoms frontiers b = some result ∧
      ∀ c y, c ∈ result y ↔ c ∈ frontiers y ∨ c = b ∧ Visits edges idoms b y := by
  unfold frontiersAt
  by_cases few : (predList edges b).length < 2
  · rw [if_pos few]
    refine ⟨frontiers, rfl, ?_⟩
    intro c y
    refine ⟨.inl, fun either => either.resolve_right ?_⟩
    rintro ⟨-, many, -⟩
    exact absurd many few.not_ge
  rw [if_neg few]
  obtain ⟨result, run, walked⟩ := foldlM_walkUp_spec (predList edges b)
    (fun x member _ => absurd member (none x) : ClosedBut idoms b frontiers Option.none)
  refine ⟨result, run, ?_⟩
  intro c y
  by_cases same : c = b
  · rw [same, walked.member]
    apply or_congr Iff.rfl
    exact ⟨fun climbs => ⟨rfl, Nat.le_of_not_lt few, climbs⟩, fun both => both.2.2⟩
  · rw [walked.others c same]
    exact ⟨.inl, fun either => either.resolve_right fun both => same both.1⟩

theorem foldlM_frontiersAt_spec (edges : List (Edge m)) {bs : List (Fin (m + 1))}
    (distinct : bs.Nodup) (none : ∀ c ∈ bs, ∀ y, c ∉ frontiers y) :
    ∃ result, bs.foldlM (frontiersAt edges idoms) frontiers = some result ∧
      ∀ c y, c ∈ result y ↔ c ∈ frontiers y ∨ c ∈ bs ∧ Visits edges idoms c y := by
  induction bs generalizing frontiers with
  | nil =>
    refine ⟨frontiers, rfl, ?_⟩
    intro c y
    exact ⟨.inl, fun either => either.resolve_right fun both => not_mem_nil both.1⟩
  | cons b bs ih =>
    obtain ⟨fresh, distinct⟩ := nodup_cons.mp distinct
    obtain ⟨middle, first, added⟩ := frontiersAt_spec edges (none b mem_cons_self)
    have still : ∀ c ∈ bs, ∀ y, c ∉ middle y := by
      intro c member y
      rw [added, not_or]
      refine ⟨none c (mem_cons_of_mem _ member) y, ?_⟩
      rintro ⟨rfl, -⟩
      exact fresh member
    obtain ⟨result, rest, later⟩ := ih distinct still
    refine ⟨result, ?_, ?_⟩
    · rw [foldlM_cons, first]
      exact rest
    intro c y
    rw [later, added, or_assoc]
    apply or_congr Iff.rfl
    rw [mem_cons]
    constructor
    · rintro (⟨rfl, visits⟩ | ⟨member, visits⟩)
      · exact ⟨.inl rfl, visits⟩
      · exact ⟨.inr member, visits⟩
    rintro ⟨rfl | member, visits⟩
    · exact .inl ⟨rfl, visits⟩
    · exact .inr ⟨member, visits⟩

theorem computeDominanceFrontiers_spec (edges : List (Edge m)) (idoms : Fin (m + 1) → Fin (m + 1)) :
    ∃ result, computeDominanceFrontiers edges idoms = some result ∧
      ∀ c y, c ∈ result y ↔ c ≠ 0 ∧ Visits edges idoms c y := by
  have distinct : (indices m).tail.Nodup := (nodup_finRange (m + 1)).tail
  obtain ⟨result, run, member⟩ := @foldlM_frontiersAt_spec m idoms (fun _ => ∅) edges _ distinct
    fun _ _ _ => Finset.notMem_empty _
  refine ⟨result, run, ?_⟩
  intro c y
  rw [member, mem_indices_tail]
  exact ⟨fun either => either.resolve_left (Finset.notMem_empty c), .inr⟩

end

section

variable {p : Fin (m + 1)}

/-- A walk comes to the predecessor's dominators that do not strictly dominate `b`. -/
theorem climbs_iff (are : AreDominators edges dominators) (reached : Reached (Follows edges) 0 p)
    (above : Dominates (Follows edges) 0 (idomsOf dominators b) p) (x : Fin (m + 1)) :
    Climbs (idomsOf dominators) b p x ↔ Dominates (Follows edges) 0 x p ∧
      ¬Dominates (Follows edges) 0 x (idomsOf dominators b) := by
  have immediate : ∀ v, Reached (Follows edges) 0 v → v ≠ 0 →
      IsImmediate (Follows edges) 0 (idomsOf dominators v) v :=
    fun v reached other => idomsOf_immediate are reached other
  revert above
  apply Reached.climb immediate _ _ reached
  · intro above
    have top : idomsOf dominators b = 0 := dominates_root_iff.mp above
    rw [top]
    constructor
    · intro climbs
      cases climbs with
      | here below => exact absurd top.symm below
      | up _ other _ => exact absurd rfl other
    · rintro ⟨dominates, not⟩
      exact absurd dominates not
  intro v reached other ih above
  have closest := immediate v reached other
  have split := closest.dominates_iff reached x
  constructor
  · intro climbs
    cases climbs with
    | here below =>
      refine ⟨dominates_self _, ?_⟩
      intro dominates
      exact below (dominates.antisymm reached above)
    | up below _ climbs =>
      have strict := (closest.strict_iff reached _).mp ⟨above, fun same => below same.symm⟩
      obtain ⟨dominates, aside⟩ := (ih strict).mp climbs
      exact ⟨split.mpr (.inr dominates), aside⟩
  rintro ⟨dominates, aside⟩
  have below : v ≠ idomsOf dominators b := by
    intro same
    exact aside (same ▸ dominates)
  rcases split.mp dominates with rfl | higher
  · exact .here below
  · have strict := (closest.strict_iff reached _).mp ⟨above, fun same => below same.symm⟩
    exact .up below other ((ih strict).mpr ⟨higher, aside⟩)

theorem exists_predecessor (reached : Reached (Follows edges) 0 b)
    (other : b ≠ 0) : ∃ p, Follows edges p b ∧ Reached (Follows edges) 0 p ∧ p ≠ b := by
  by_contra none
  obtain ⟨path, runs⟩ := reached
  have never : ∀ {path : List (Fin (m + 1))} {v : Fin (m + 1)},
      Path (Follows edges) 0 path v → v ≠ b := by
    intro path v runs
    induction runs with
    | root => exact other.symm
    | @step path u v before next ih =>
      rintro rfl
      exact none ⟨u, next, ⟨path, before⟩, ih⟩
  exact never runs rfl

/-- The dominance frontiers of all blocks, as far as they hold blocks that are reached. -/
def AreFrontiers (edges : List (Edge m)) (frontiers : Sets m) : Prop :=
  ∀ b, Reached (Follows edges) (firstBlock m) b →
    ∀ x, b ∈ frontiers x ↔ InFrontier (Follows edges) (firstBlock m) x b

/-- Only blocks that are reached lead to a reached block, and none of them back to the first. -/
def EntersOnce (edges : List (Edge m)) : Prop :=
  (∀ p b, Follows edges p b → Reached (Follows edges) (firstBlock m) b → b ≠ firstBlock m →
      Reached (Follows edges) (firstBlock m) p) ∧
    ∀ p, Follows edges p (firstBlock m) → ¬Reached (Follows edges) (firstBlock m) p

theorem immediate_dominates
    (immediate : IsImmediate (Follows edges) 0 i b) (follows : Follows edges p b) :
    Dominates (Follows edges) 0 i p :=
  (immediate.1.1.back follows).resolve_left immediate.1.2

theorem not_inFrontier_of_few (few : (predList edges b).length < 2)
    (reached : Reached (Follows edges) 0 b) (other : b ≠ 0) (x : Fin (m + 1)) :
    ¬InFrontier (Follows edges) 0 x b := by
  rintro ⟨⟨p, follows, -, dominates⟩, notStrict⟩
  obtain ⟨q, followsToo, reachedToo, differs⟩ := exists_predecessor reached other
  have only : ∀ u, Follows edges u b → u = q := by
    intro u follows
    obtain ⟨edge, single⟩ := length_eq_one_iff.mp (le_antisymm (le_of_lt_succ few)
      (length_pos_of_mem (mem_predList.mpr ⟨followsToo, rfl⟩)))
    have one : (⟨u, b⟩ : Edge m) ∈ predList edges b := mem_predList.mpr ⟨follows, rfl⟩
    have two : (⟨q, b⟩ : Edge m) ∈ predList edges b := mem_predList.mpr ⟨followsToo, rfl⟩
    rw [single, mem_singleton] at one two
    exact congrArg Edge.source (one.trans two.symm)
  have toQ : Dominates (Follows edges) 0 x q := only p follows ▸ dominates
  apply notStrict
  constructor
  · apply dominates_of_predecessors other
    intro u follows
    rw [only u follows]
    exact toQ
  rintro rfl
  have back : Dominates (Follows edges) 0 q x := by
    apply dominates_of_predecessors other
    intro u follows
    rw [only u follows]
    exact dominates_self q
  exact differs (back.antisymm reachedToo toQ)

theorem areFrontiers_iff (are : AreDominators edges dominators) {frontiers : Sets m}
    (member : ∀ c y, c ∈ frontiers y ↔ c ≠ 0 ∧ Visits edges (idomsOf dominators) c y) :
    AreFrontiers edges frontiers ↔ EntersOnce edges := by
  constructor
  · intro exactly
    constructor
    · intro p b follows reached other
      by_contra out
      obtain ⟨q, followsToo, reachedToo, -⟩ := exists_predecessor reached other
      have closest := idomsOf_immediate are reached other
      have differ : p ≠ q := fun same => out (same ▸ reachedToo)
      have one : (⟨p, b⟩ : Edge m) ∈ predList edges b := mem_predList.mpr ⟨follows, rfl⟩
      have two : (⟨q, b⟩ : Edge m) ∈ predList edges b := mem_predList.mpr ⟨followsToo, rfl⟩
      have many : 2 ≤ (predList edges b).length := by
        by_contra few
        obtain ⟨edge, single⟩ := length_eq_one_iff.mp
          (le_antisymm (by omega) (length_pos_of_mem one))
        rw [single, mem_singleton] at one two
        exact differ (congrArg Edge.source (one.trans two.symm))
      have below : p ≠ idomsOf dominators b := fun same => out (same ▸ closest.1.1.reached reached)
      have visited := (member b p).mpr ⟨other, many, _, one, .here below⟩
      obtain ⟨⟨r, -, reachedR, dominates⟩, -⟩ := (exactly b reached p).mp visited
      exact out (dominates.reached reachedR)
    · intro p follows reached
      have expected : InFrontier (Follows edges) 0 0 0 :=
        ⟨⟨p, follows, reached, root_dominates p⟩, fun strict => strict.2 rfl⟩
      exact ((member 0 0).mp ((exactly 0 reached_root 0).mpr expected)).1 rfl
  · rintro ⟨inward, once⟩ b reached x
    rw [member]
    by_cases first : b = 0
    · subst first
      constructor
      · rintro ⟨impossible, -⟩
        exact absurd rfl impossible
      · rintro ⟨⟨p, follows, reachedP, -⟩, -⟩
        exact absurd reachedP (once p follows)
    have closest := idomsOf_immediate are reached first
    by_cases few : (predList edges b).length < 2
    · constructor
      · rintro ⟨-, many, -⟩
        exact absurd many few.not_ge
      · intro expected
        exact absurd expected (not_inFrontier_of_few few reached first x)
    constructor
    · rintro ⟨-, -, edge, within, climbs⟩
      obtain ⟨listed, target⟩ := mem_predList.mp within
      have follows : Follows edges edge.source b := target ▸ listed
      have reachedP := inward edge.source b follows reached first
      obtain ⟨dominates, aside⟩ :=
        (climbs_iff are reachedP (immediate_dominates closest follows) x).mp climbs
      refine ⟨⟨edge.source, follows, reachedP, dominates⟩, ?_⟩
      exact fun strict => aside ((closest.strict_iff reached x).mp strict)
    rintro ⟨⟨p, follows, reachedP, dominates⟩, notStrict⟩
    refine ⟨first, Nat.le_of_not_lt few, ⟨p, b⟩, mem_predList.mpr ⟨follows, rfl⟩, ?_⟩
    apply (climbs_iff are reachedP (immediate_dominates closest follows) x).mpr
    exact ⟨dominates, fun higher => notStrict ((closest.strict_iff reached x).mpr higher)⟩

/-- On every graph that `build_cfg` builds, the dominators and the closest ones are exact; the
frontiers are if only reached blocks lead to a reached one, and none of them back to the first. -/
theorem dominators_exact (bb : Fin (m + 1) → BasicBlock m) :
    ∃ edges dominators frontiers, buildCfg bb = some edges ∧
      computeDominators edges = some dominators ∧
      computeDominanceFrontiers edges (idomsOf dominators) = some frontiers ∧
      AreDominators edges dominators ∧ (∀ b, Reached (Follows edges) 0 b → b ≠ 0 →
        IsImmediate (Follows edges) 0 (idomsOf dominators b) b) ∧
      (AreFrontiers edges frontiers ↔ EntersOnce edges) := by
  obtain ⟨edges, built, decoupled⟩ := buildCfg_decoupled bb
  obtain ⟨dominators, computed, sets⟩ := computeDominators_spec decoupled
  obtain ⟨frontiers, walked, member⟩ := computeDominanceFrontiers_spec edges (idomsOf dominators)
  have are : AreDominators edges dominators := fun b reached => sets b (entered_of_reached reached)
  exact ⟨edges, dominators, frontiers, built, computed, walked, are,
    fun b reached other => idomsOf_immediate are reached other, areFrontiers_iff are member⟩

end

/-- A block that branches to itself, as in `L: if x goto L`. -/
def selfLoop : Fin 1 → BasicBlock 0 := fun _ => ⟨false, false, .label (some 0)⟩

/-- The first block is not in its own frontier. -/
theorem frontier_misses_first : ∃ edges dominators frontiers, buildCfg selfLoop = some edges ∧
    computeDominators edges = some dominators ∧
    computeDominanceFrontiers edges (idomsOf dominators) = some frontiers ∧
    Reached (Follows edges) 0 0 ∧ InFrontier (Follows edges) 0 0 0 ∧ 0 ∉ frontiers 0 ∧
    ¬AreFrontiers edges frontiers := by
  have follows : Follows [(⟨0, 0⟩ : Edge 0)] 0 0 := mem_singleton.mpr rfl
  have expected : InFrontier (Follows [(⟨0, 0⟩ : Edge 0)]) 0 0 0 :=
    ⟨⟨0, follows, reached_root, root_dominates 0⟩, fun strict => strict.2 rfl⟩
  have nothing : (0 : Fin 1) ∉ ((fun _ => ∅) : Sets 0) 0 := Finset.notMem_empty 0
  refine ⟨[⟨0, 0⟩], initialDominators [⟨0, 0⟩], fun _ => ∅, by decide, rfl, rfl, reached_root,
    expected, nothing, ?_⟩
  intro exactly
  exact nothing ((exactly 0 reached_root 0).mpr expected)

end RakudoStar.Imcc
