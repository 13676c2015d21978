import RakudoStar.QRegex.Nfa

/-!
# The states a walk visits

A walk visits what epsilon edges lead to, each state once. It crosses the fate edges of these
and follows their other edges.
-/

namespace RakudoStar.QRegex

open List

namespace Nfa

def HasEdge (nfa : Nfa) (st : Nat) (act : Act) (next : Nat) : Prop :=
  ∃ edges, nfa.states[st]? = some edges ∧ ⟨act, next⟩ ∈ edges

/-- What epsilon edges lead to. -/
inductive Near (nfa : Nfa) (starts : List Nat) : Nat → Prop
  | start {st : Nat} (mem : st ∈ starts) : Near nfa starts st
  | epsilon {st next : Nat} (near : Near nfa starts st) (edge : nfa.HasEdge st .epsilon next) :
      Near nfa starts next

variable {nfa : Nfa} {st next : Nat} {act : Act}

theorem HasEdge.target (edge : nfa.HasEdge st act next)
    (notFate : ∀ arg, act ≠ .fate arg) (notSubrule : ∀ name, act ≠ .subrule name) :
    next < nfa.states.length := by
  rcases edge with ⟨edges, found, mem⟩
  exact nfa.targets edges (mem_of_getElem? found) _ mem notFate notSubrule

theorem HasEdge.accepts_target
    (edge : nfa.HasEdge st act next) {isCclass : Nat → Nat → Bool} {char : Nat}
    (accepts : act.accepts isCclass char = true) : next < nfa.states.length := by
  refine edge.target (fun arg same => ?_) fun name same => ?_
  · rw [same] at accepts
    cases accepts
  · rw [same] at accepts
    cases accepts

theorem Near.inside {starts : List Nat} (near : nfa.Near starts st)
    (inside : ∀ start ∈ starts, start < nfa.states.length) : st < nfa.states.length := by
  induction near with
  | start mem => exact inside _ mem
  | epsilon near edge ih =>
    exact edge.target (fun _ same => Act.noConfusion same) fun _ same => Act.noConfusion same

variable (nfa : Nfa) (isCclass : Nat → Nat → Bool) (char? : Option Nat) (gen : Nat)
  (edge : Edge) (edges : List Edge) (walk : Walk) (fate : Nat)

@[simp] theorem walkEdge_done : (nfa.walkEdge isCclass char? gen edge walk).done = walk.done := by
  rcases edge with ⟨act, next⟩
  cases act <;> simp only [walkEdge] <;> split <;> rfl

theorem mem_walkEdge_curst (st : Nat) :
    st ∈ (nfa.walkEdge isCclass char? gen edge walk).curst ↔ st ∈ walk.curst ∨
        edge = ⟨.epsilon, st⟩ ∧ st < nfa.states.length ∧ walk.done.getD st 0 ≠ gen := by
  rcases edge with ⟨act, next⟩
  cases act with
  | fate arg => simp [walkEdge]
  | epsilon =>
    simp only [walkEdge]
    split
    · next fresh =>
        rw [mem_cons, or_comm]
        refine or_congr_right ⟨?_, fun new => (Edge.mk.inj new.1).2.symm⟩
        rintro rfl
        exact ⟨rfl, fresh⟩
    next stale =>
      refine (or_iff_left fun new => stale ?_).symm
      rw [(Edge.mk.inj new.1).2]
      exact new.2
  | _ =>
    simp only [walkEdge]
    split <;> simp

theorem mem_walkEdge_nextst (st : Nat) :
    st ∈ (nfa.walkEdge isCclass char? gen edge walk).nextst ↔ st ∈ walk.nextst ∨
        ∃ act, edge = ⟨act, st⟩ ∧ (char?.any fun char => act.accepts isCclass char) = true := by
  rcases edge with ⟨act, next⟩
  cases act with
  | fate arg => simp [walkEdge, Act.accepts]
  | epsilon =>
    simp only [walkEdge]
    split <;> simp [Act.accepts]
  | _ =>
    simp only [walkEdge]
    split
    · next taken =>
        rw [mem_cons, or_comm]
        refine or_congr_right ⟨fun same => ⟨_, same ▸ rfl, taken⟩, ?_⟩
        rintro ⟨_, same, _⟩
        exact (Edge.mk.inj same).2.symm
    next left =>
      refine (or_iff_left ?_).symm
      rintro ⟨_, same, taken⟩
      exact left ((Edge.mk.inj same).1 ▸ taken)

theorem mem_walkEdge_crossed : fate ∈ (nfa.walkEdge isCclass char? gen edge walk).crossed ↔
      fate ∈ walk.crossed ∨ edge.act = .fate fate := by
  rcases edge with ⟨act, next⟩
  cases act with
  | fate arg => simp [walkEdge, eq_comm]
  | _ =>
    simp only [walkEdge]
    split <;> simp

theorem length_walkEdge :
    (nfa.walkEdge isCclass char? gen edge walk).curst.length ≤ walk.curst.length + 1 ∧
      (nfa.walkEdge isCclass char? gen edge walk).nextst.length ≤ walk.nextst.length + 1 := by
  rcases edge with ⟨act, next⟩
  cases act with
  | fate arg => exact ⟨Nat.le_succ _, Nat.le_succ _⟩
  | _ =>
    simp only [walkEdge]
    split <;> simp

theorem walkEdges_cons : nfa.walkEdges isCclass char? gen (edge :: edges) walk =
      nfa.walkEdges isCclass char? gen edges (nfa.walkEdge isCclass char? gen edge walk) :=
  rfl

@[simp] theorem walkEdges_done :
    (nfa.walkEdges isCclass char? gen edges walk).done = walk.done := by
  induction edges generalizing walk with
  | nil => rfl
  | cons edge edges ih => rw [walkEdges_cons, ih, walkEdge_done]

theorem mem_walkEdges_curst (st : Nat) :
    st ∈ (nfa.walkEdges isCclass char? gen edges walk).curst ↔ st ∈ walk.curst ∨
        ⟨.epsilon, st⟩ ∈ edges ∧ st < nfa.states.length ∧ walk.done.getD st 0 ≠ gen := by
  induction edges generalizing walk with
  | nil => simp [walkEdges]
  | cons edge edges ih =>
    rw [walkEdges_cons, ih, mem_walkEdge_curst, walkEdge_done, mem_cons,
      or_and_right, or_assoc, eq_comm]

theorem mem_walkEdges_nextst (st : Nat) :
    st ∈ (nfa.walkEdges isCclass char? gen edges walk).nextst ↔ st ∈ walk.nextst ∨
        ∃ act, ⟨act, st⟩ ∈ edges ∧ (char?.any fun char => act.accepts isCclass char) = true := by
  induction edges generalizing walk with
  | nil => simp [walkEdges]
  | cons edge edges ih =>
    rw [walkEdges_cons, ih, mem_walkEdge_nextst, or_assoc]
    simp only [mem_cons, or_and_right, exists_or, eq_comm]

theorem mem_walkEdges_crossed : fate ∈ (nfa.walkEdges isCclass char? gen edges walk).crossed ↔
      fate ∈ walk.crossed ∨ ∃ next, ⟨.fate fate, next⟩ ∈ edges := by
  induction edges generalizing walk with
  | nil => simp [walkEdges]
  | cons edge edges ih =>
    rw [walkEdges_cons, ih, mem_walkEdge_crossed, or_assoc]
    rcases edge with ⟨act, next⟩
    simp [exists_or, eq_comm]

theorem length_walkEdges :
    (nfa.walkEdges isCclass char? gen edges walk).curst.length ≤ walk.curst.length + edges.length ∧
      (nfa.walkEdges isCclass char? gen edges walk).nextst.length ≤
        walk.nextst.length + edges.length := by
  induction edges generalizing walk with
  | nil => exact ⟨Nat.le_refl _, Nat.le_refl _⟩
  | cons edge edges ih =>
    rw [walkEdges_cons, length_cons]
    rcases length_walkEdge nfa isCclass char? gen edge walk with ⟨curst, nextst⟩
    rcases ih (nfa.walkEdge isCclass char? gen edge walk) with ⟨curst', nextst'⟩
    exact ⟨by omega, by omega⟩

/-- The number of edges of the states that are still to be visited. -/
def pending (gen : Nat) : List (List Edge) → List Nat → Nat
  | edges :: states, mark :: done =>
    (if mark = gen then 0 else edges.length) + pending gen states done
  | _, _ => 0

theorem pending_set {states : List (List Edge)} {done : List Nat} {edges : List Edge}
    (found : states[st]? = some edges) (inside : st < done.length) (fresh : done.getD st 0 ≠ gen) :
    pending gen states (done.set st gen) + edges.length = pending gen states done := by
  induction states generalizing done st with
  | nil => cases found
  | cons first states ih =>
    cases done with
    | nil => cases inside
    | cons mark done =>
      cases st with
      | zero =>
        cases found
        rw [getD_cons_zero] at fresh
        rw [set_cons_zero, pending, pending, if_pos rfl, if_neg fresh]
        omega
      | succ st =>
        rw [getD_cons_succ] at fresh
        rw [set_cons_succ, pending, pending, Nat.add_assoc,
          ih found (Nat.lt_of_succ_lt_succ inside) fresh]

/-- The number of edges of some states. -/
def edgeCount : List (List Edge) → Nat
  | [] => 0
  | edges :: states => edges.length + edgeCount states

theorem pending_le (states : List (List Edge)) (done : List Nat) :
    pending gen states done ≤ edgeCount states := by
  induction states generalizing done with
  | nil => exact Nat.zero_le _
  | cons edges states ih =>
    cases done with
    | nil => exact Nat.zero_le _
    | cons mark done =>
      rw [pending, edgeCount]
      refine Nat.add_le_add ?_ (ih done)
      split
      · exact Nat.zero_le _
      · exact Nat.le_refl _

end Nfa

/-- What is known during a walk from the states `starts`. -/
structure Walking (nfa : Nfa) (isCclass : Nat → Nat → Bool) (char? : Option Nat) (gen : Nat)
    (starts : List Nat) (walk : Walk) : Prop where
  length : walk.done.length = nfa.states.length
  marks : ∀ st, walk.done.getD st 0 ≤ gen
  near : ∀ st, walk.done.getD st 0 = gen → nfa.Near starts st
  waiting : ∀ st ∈ walk.curst, nfa.Near starts st
  starts : ∀ st ∈ starts, walk.done.getD st 0 = gen ∨ st ∈ walk.curst
  closed : ∀ st next, walk.done.getD st 0 = gen → nfa.HasEdge st .epsilon next →
    walk.done.getD next 0 = gen ∨ next ∈ walk.curst
  crossed : ∀ fate, fate ∈ walk.crossed ↔
    ∃ st next, walk.done.getD st 0 = gen ∧ nfa.HasEdge st (.fate fate) next
  nextst : ∀ next, next ∈ walk.nextst ↔
    ∃ st act, walk.done.getD st 0 = gen ∧ nfa.HasEdge st act next ∧
      (char?.any fun char => act.accepts isCclass char) = true

section

variable {isCclass : Nat → Nat → Bool} {char? : Option Nat} {gen : Nat} {starts : List Nat}
  {walk : Walk} {curst : List Nat}

section

variable (walking : Walking nfa isCclass char? gen starts walk)

include walking

theorem Walking.pass (top : walk.curst = st :: curst) (seen : walk.done.getD st 0 = gen) :
    Walking nfa isCclass char? gen starts { walk with curst } := by
  have kept : ∀ next, walk.done.getD next 0 = gen ∨ next ∈ walk.curst →
      walk.done.getD next 0 = gen ∨ next ∈ curst := by
    intro next known
    rw [top, mem_cons] at known
    rcases known with done | rfl | waiting
    · exact .inl done
    · exact .inl seen
    · exact .inr waiting
  exact ⟨walking.length, walking.marks, walking.near,
    fun next mem => walking.waiting next (top ▸ mem_cons_of_mem st mem),
    fun next mem => kept next (walking.starts next mem),
    fun source next visited edge => kept next (walking.closed source next visited edge),
    walking.crossed, walking.nextst⟩

theorem Walking.visit
    (top : walk.curst = st :: curst) (fresh : walk.done.getD st 0 ≠ gen) {edges : List Edge}
    (found : nfa.states[st]? = some edges) :
    Walking nfa isCclass char? gen starts (nfa.walkEdges isCclass char? gen edges
      { walk with curst, done := walk.done.set st gen }) := by
  have inside : st < walk.done.length := walking.length ▸ (List.getElem?_eq_some_iff.mp found).1
  have mark : ∀ next, (walk.done.set st gen).getD next 0 =
      if next = st then gen else walk.done.getD next 0 :=
    fun next => getD_set walk.done st next gen inside
  have visited : ∀ next, (walk.done.set st gen).getD next 0 = gen ↔
      next = st ∨ walk.done.getD next 0 = gen := by
    intro next
    rw [mark]
    by_cases same : next = st
    · simp [same]
    · simp [same]
  have ofTop : ∀ act next, nfa.HasEdge st act next ↔ ⟨act, next⟩ ∈ edges := by
    intro act next
    simp only [Nfa.HasEdge, found, Option.some.injEq, exists_eq_left']
  have near := walking.waiting st (top ▸ mem_cons_self)
  have kept : ∀ next, walk.done.getD next 0 = gen ∨ next ∈ walk.curst →
      (walk.done.set st gen).getD next 0 = gen ∨ next ∈ curst := by
    intro next known
    rw [top, mem_cons] at known
    rcases known with done | rfl | waiting
    · exact .inl ((visited next).mpr (.inr done))
    · exact .inl ((visited next).mpr (.inl rfl))
    · exact .inr waiting
  refine ⟨?_, fun next => ?_, fun next => ?_, fun next => ?_, fun next mem => ?_,
    fun source next => ?_, fun fate => ?_, fun next => ?_⟩
  · rw [Nfa.walkEdges_done, length_set, walking.length]
  · rw [Nfa.walkEdges_done, mark]
    split
    · exact Nat.le_refl gen
    · exact walking.marks next
  · rw [Nfa.walkEdges_done, visited]
    rintro (rfl | done)
    · exact near
    · exact walking.near next done
  · rw [Nfa.mem_walkEdges_curst]
    rintro (waiting | ⟨mem, _⟩)
    · exact walking.waiting next (top ▸ mem_cons_of_mem st waiting)
    · exact near.epsilon ((ofTop _ _).mpr mem)
  · rw [Nfa.walkEdges_done, Nfa.mem_walkEdges_curst]
    exact (kept next (walking.starts next mem)).imp_right .inl
  · rw [Nfa.walkEdges_done, Nfa.mem_walkEdges_curst, visited source]
    rintro (rfl | done) edge
    · by_cases there : (walk.done.set source gen).getD next 0 = gen
      · exact .inl there
      · exact .inr (.inr ⟨(ofTop _ _).mp edge, edge.target
          (fun _ same => Act.noConfusion same) fun _ same => Act.noConfusion same, there⟩)
    · exact (kept next (walking.closed source next done edge)).imp_right .inl
  · rw [Nfa.walkEdges_done, Nfa.mem_walkEdges_crossed, walking.crossed]
    simp only [visited, or_and_right, exists_or, exists_and_left, exists_eq_left, ofTop, or_comm]
  · rw [Nfa.walkEdges_done, Nfa.mem_walkEdges_nextst, walking.nextst]
    simp only [visited, or_and_right, exists_or, exists_and_left, exists_eq_left, ofTop, or_comm]

/-- A walk ends, and no edge has been followed twice. -/
theorem walkStates_ends {fuel total : Nat} (inside : ∀ start ∈ starts, start < nfa.states.length)
    (enough : walk.curst.length + Nfa.pending gen nfa.states walk.done < fuel)
    (within : walk.nextst.length + Nfa.pending gen nfa.states walk.done ≤ total) :
    ∃ last, nfa.walkStates isCclass char? gen fuel walk = some last ∧
      Walking nfa isCclass char? gen starts last ∧ last.curst = [] ∧
      last.nextst.length ≤ total := by
  induction fuel generalizing walk with
  | zero => cases enough
  | succ fuel ih =>
    rw [Nfa.walkStates]
    cases top : walk.curst with
    | nil => exact ⟨walk, rfl, walking, top, Nat.le_of_add_right_le within⟩
    | cons st curst =>
      rw [top, length_cons] at enough
      have source : st < nfa.states.length :=
        (walking.waiting st (top ▸ mem_cons_self)).inside inside
      dsimp only
      by_cases seen : walk.done.getD st 0 = gen
      · rw [if_pos ⟨source, seen⟩]
        exact ih (walking.pass top seen) (by dsimp only; omega) within
      rw [if_neg fun both => seen both.2, getElem?_eq_getElem source]
      have found := getElem?_eq_getElem source
      have counted := Nfa.pending_set gen found (walking.length ▸ source) seen
      rcases Nfa.length_walkEdges nfa isCclass char? gen nfa.states[st]
        { walk with curst, done := walk.done.set st gen } with ⟨shortCurst, shortNextst⟩
      dsimp only at shortCurst shortNextst ⊢
      refine ih (walking.visit top seen found) ?_ ?_
      all_goals
        rw [Nfa.walkEdges_done]
        dsimp only
        omega

theorem Walking.visited
    (finished : walk.curst = []) (st : Nat) : walk.done.getD st 0 = gen ↔ nfa.Near starts st := by
  refine ⟨walking.near st, fun near => ?_⟩
  induction near with
  | start mem =>
    refine (walking.starts _ mem).resolve_right ?_
    rw [finished]
    exact not_mem_nil
  | epsilon near edge ih =>
    refine (walking.closed _ _ ih edge).resolve_right ?_
    rw [finished]
    exact not_mem_nil

end

end

end RakudoStar.QRegex
