import Mathlib.Data.Finset.Max
import Mathlib.Data.Fintype.Basic

/-!
# Dominance in a directed graph

Paths from a root, the vertices on every path to a vertex, the closest of them, and the
frontiers.
-/

namespace RakudoStar.Foundation

open List

variable {V : Type}

/-- A path from the root, with its vertices in the opposite order. -/
inductive Path (edge : V → V → Prop) (root : V) : List V → V → Prop
  | root : Path edge root [root] root
  | step {path : List V} {u v : V} (before : Path edge root path u) (next : edge u v) :
      Path edge root (v :: path) v

/-- There is a path to the vertex. -/
def Reached (edge : V → V → Prop) (root v : V) : Prop := ∃ path, Path edge root path v

/-- The vertex lies on every path to the other one. -/
def Dominates (edge : V → V → Prop) (root d v : V) : Prop :=
  ∀ path, Path edge root path v → d ∈ path

def StrictlyDominates (edge : V → V → Prop) (root d v : V) : Prop :=
  Dominates edge root d v ∧ d ≠ v

/-- The closest strict dominator: every other one dominates it. -/
def IsImmediate (edge : V → V → Prop) (root i v : V) : Prop :=
  StrictlyDominates edge root i v ∧ ∀ d, StrictlyDominates edge root d v → Dominates edge root d i

/-- `d` dominates a predecessor, but not strictly the vertex itself. -/
def InFrontier (edge : V → V → Prop) (root d v : V) : Prop :=
  (∃ p, edge p v ∧ Reached edge root p ∧ Dominates edge root d p) ∧ ¬StrictlyDominates edge root d v

section

variable {edge : V → V → Prop} {root d c i : V} {v : V} {path : List V}

theorem Path.ends (runs : Path edge root path v) : v ∈ path := by
  cases runs with
  | root | step _ _ => exact mem_cons_self

theorem Path.starts (runs : Path edge root path v) : root ∈ path := by
  induction runs with
  | root => exact mem_cons_self
  | step _ _ ih => exact mem_cons_of_mem _ ih

theorem Path.part (runs : Path edge root path v) (on : d ∈ path) :
    ∃ part, Path edge root part d ∧ part <:+ path := by
  induction runs with
  | root =>
    rw [mem_singleton.mp on]
    exact ⟨[root], .root, suffix_rfl⟩
  | @step path u v before next ih =>
    rcases mem_cons.mp on with rfl | earlier
    · exact ⟨_, before.step next, suffix_rfl⟩
    · obtain ⟨part, reaches, suffix⟩ := ih earlier
      exact ⟨part, reaches, suffix.trans (suffix_cons _ _)⟩

theorem reached_root : Reached edge root root := ⟨_, .root⟩

theorem dominates_self (v : V) : Dominates edge root v v := fun _ runs => runs.ends

theorem root_dominates (v : V) : Dominates edge root root v := fun _ runs => runs.starts

theorem dominates_root_iff : Dominates edge root d root ↔ d = root := by
  constructor
  · intro dominates
    exact mem_singleton.mp (dominates _ .root)
  · rintro rfl
    exact dominates_self _

theorem Dominates.reached (dominates : Dominates edge root d v)
    (reached : Reached edge root v) : Reached edge root d := by
  obtain ⟨path, runs⟩ := reached
  obtain ⟨part, reaches, -⟩ := runs.part (dominates path runs)
  exact ⟨part, reaches⟩

theorem Dominates.trans (first : Dominates edge root c d)
    (second : Dominates edge root d v) : Dominates edge root c v := by
  intro path runs
  obtain ⟨part, reaches, suffix⟩ := runs.part (second path runs)
  exact suffix.subset (first part reaches)

theorem Dominates.back {u : V} (dominates : Dominates edge root d v) (next : edge u v) :
    d = v ∨ Dominates edge root d u := by
  by_cases same : d = v
  · exact .inl same
  right
  intro path runs
  rcases mem_cons.mp (dominates _ (runs.step next)) with here | earlier
  · exact absurd here same
  · exact earlier

theorem dominates_of_predecessors (other : v ≠ root)
    (all : ∀ u, edge u v → Dominates edge root d u) : Dominates edge root d v := by
  intro path runs
  cases runs with
  | root => exact absurd rfl other
  | step before next => exact mem_cons_of_mem _ (all _ next _ before)

/-- Sets that lose what is not common to the predecessors hold only dominators. -/
theorem dominates_of_closed {sets : V → Set V} (first : sets root ⊆ {root})
    (closed : ∀ u v, edge u v → ∀ d ∈ sets v, d = v ∨ d ∈ sets u) {d v : V} (member : d ∈ sets v) :
    Dominates edge root d v := by
  intro path runs
  induction runs with
  | root => exact mem_singleton.mpr (first member)
  | @step path u v _ next ih =>
    rcases closed u v next d member with rfl | earlier
    · exact mem_cons_self
    · exact mem_cons_of_mem _ (ih earlier)

/-- The vertex is reached on a path that leaves `d` aside. -/
def Avoids (edge : V → V → Prop) (root d v : V) : Prop :=
  ∃ path, Path edge root path v ∧ d ∉ path

theorem not_dominates_iff : ¬Dominates edge root d v ↔ Avoids edge root d v := by
  simp only [Dominates, Avoids, not_forall, exists_prop]

theorem Avoids.step {d u v : V} (avoids : Avoids edge root d u) (next : edge u v)
    (other : d ≠ v) : Avoids edge root d v := by
  obtain ⟨path, runs, aside⟩ := avoids
  refine ⟨_, runs.step next, ?_⟩
  intro on
  rcases mem_cons.mp on with here | earlier
  · exact other here
  · exact aside earlier

theorem Dominates.total (reached : Reached edge root v)
    (one : Dominates edge root c v) (two : Dominates edge root d v) :
    Dominates edge root c d ∨ Dominates edge root d c := by
  by_contra neither
  rw [not_or, not_dominates_iff, not_dominates_iff] at neither
  obtain ⟨asideC, asideD⟩ := neither
  have differ : c ≠ d := by
    rintro rfl
    exact not_dominates_iff.mpr asideC (dominates_self c)
  -- along a path to the vertex, one of the two is left aside
  have apart : ∀ {path : List V} {x : V}, Path edge root path x →
      Avoids edge root c x ∨ Avoids edge root d x := by
    intro path x runs
    induction runs with
    | root =>
      by_cases here : c = root
      · right
        refine ⟨_, .root, ?_⟩
        intro on
        exact differ (here.trans (mem_singleton.mp on).symm)
      · exact .inl ⟨_, .root, fun on => here (mem_singleton.mp on)⟩
    | @step path u x before next ih =>
      rcases ih with avoids | avoids
      · by_cases here : c = x
        · exact .inr (here ▸ asideD)
        · exact .inl (avoids.step next here)
      by_cases here : d = x
      · exact .inl (here ▸ asideC)
      · exact .inr (avoids.step next here)
  obtain ⟨path, runs⟩ := reached
  rcases apart runs with avoids | avoids
  · exact not_dominates_iff.mpr avoids one
  · exact not_dominates_iff.mpr avoids two

theorem Dominates.antisymm (reached : Reached edge root c)
    (one : Dominates edge root c d) (two : Dominates edge root d c) : c = d := by
  by_contra differ
  -- no path comes to either of them
  have apart : ∀ {path : List V} {x : V}, Path edge root path x → c ∉ path ∧ d ∉ path := by
    intro path x runs
    have neither : ∀ {path : List V} {x : V}, Path edge root path x →
        (c = x → d ∈ path.tail) ∧ (d = x → c ∈ path.tail) := by
      intro path x runs
      constructor
      · rintro rfl
        have on := two path runs
        cases runs with
        | root => exact absurd (mem_singleton.mp on).symm differ
        | step _ _ => exact (mem_cons.mp on).resolve_left fun same => differ same.symm
      rintro rfl
      have on := one path runs
      cases runs with
      | root => exact absurd (mem_singleton.mp on) differ
      | step _ _ => exact (mem_cons.mp on).resolve_left differ
    induction runs with
    | root =>
      obtain ⟨isC, isD⟩ := neither (@Path.root V edge root)
      constructor
      · intro on
        exact absurd (isC (mem_singleton.mp on)) not_mem_nil
      · intro on
        exact absurd (isD (mem_singleton.mp on)) not_mem_nil
    | @step path u x before next ih =>
      obtain ⟨isC, isD⟩ := neither (before.step next)
      constructor
      · intro on
        rcases mem_cons.mp on with here | earlier
        · exact ih.2 (isC here)
        · exact ih.1 earlier
      intro on
      rcases mem_cons.mp on with here | earlier
      · exact ih.1 (isD here)
      · exact ih.2 earlier
  obtain ⟨path, runs⟩ := reached
  exact (apart runs).1 runs.ends

theorem root_strictlyDominates (other : v ≠ root) : StrictlyDominates edge root root v :=
  ⟨root_dominates v, other.symm⟩

theorem exists_last (reached : Reached edge root v) {ds : List V} (some_ : ds ≠ [])
    (all : ∀ d ∈ ds, Dominates edge root d v) : ∃ i ∈ ds, ∀ d ∈ ds, Dominates edge root d i := by
  induction ds with
  | nil => exact absurd rfl some_
  | cons d ds ih =>
    by_cases empty : ds = []
    · subst empty
      refine ⟨d, mem_cons_self, ?_⟩
      intro c member
      rw [mem_singleton.mp member]
      exact dominates_self d
    obtain ⟨i, within, last⟩ := ih empty (forall_mem_cons.mp all).2
    have first := all d mem_cons_self
    have second := all i (mem_cons_of_mem _ within)
    rcases first.total reached second with up | down
    · exact ⟨i, mem_cons_of_mem _ within, forall_mem_cons.mpr ⟨up, last⟩⟩
    · refine ⟨d, mem_cons_self, forall_mem_cons.mpr ⟨dominates_self d, ?_⟩⟩
      exact fun c member => (last c member).trans down

theorem exists_immediate (reached : Reached edge root v) (other : v ≠ root) :
    ∃ i, IsImmediate edge root i v := by
  classical
  obtain ⟨path, runs⟩ := reached
  have strict : ∀ d, StrictlyDominates edge root d v ↔
      d ∈ path.filter fun d => decide (StrictlyDominates edge root d v) := by
    intro d
    rw [mem_filter, decide_eq_true_iff]
    exact ⟨fun both => ⟨both.1 path runs, both⟩, fun both => both.2⟩
  obtain ⟨i, within, last⟩ := exists_last ⟨path, runs⟩
    (ne_nil_of_mem ((strict root).mp (root_strictlyDominates other)))
    fun d member => ((strict d).mpr member).1
  exact ⟨i, (strict i).mpr within, fun d dominates => last d ((strict d).mp dominates)⟩

theorem IsImmediate.strict_iff (reached : Reached edge root v)
    (immediate : IsImmediate edge root i v) (d : V) :
    StrictlyDominates edge root d v ↔ Dominates edge root d i := by
  constructor
  · exact immediate.2 d
  intro dominates
  refine ⟨dominates.trans immediate.1.1, ?_⟩
  rintro rfl
  exact immediate.1.2 (immediate.1.1.antisymm (immediate.1.1.reached reached) dominates)

theorem IsImmediate.dominates_iff (reached : Reached edge root v)
    (immediate : IsImmediate edge root i v) (d : V) :
    Dominates edge root d v ↔ d = v ∨ Dominates edge root d i := by
  rw [← immediate.strict_iff reached]
  constructor
  · intro dominates
    by_cases same : d = v
    · exact .inl same
    · exact .inr ⟨dominates, same⟩
  rintro (rfl | strict)
  · exact dominates_self d
  · exact strict.1

theorem Reached.climb {idom : V → V}
    (immediate : ∀ v, Reached edge root v → v ≠ root → IsImmediate edge root (idom v) v)
    {P : V → Prop} (first : P root) (down : ∀ v, Reached edge root v → v ≠ root → P (idom v) → P v)
    (reached : Reached edge root v) : P v := by
  obtain ⟨path, runs⟩ := reached
  induction length : path.length using Nat.strongRecOn generalizing path v with
  | ind n ih =>
    by_cases top : v = root
    · rw [top]
      exact first
    have closest := immediate v ⟨path, runs⟩ top
    apply down v ⟨path, runs⟩ top
    cases runs with
    | root => exact absurd rfl top
    | @step path u v before next =>
      have earlier := (mem_cons.mp (closest.1.1 _ (before.step next))).resolve_left closest.1.2
      obtain ⟨part, reaches, suffix⟩ := before.part earlier
      have shorter := suffix.length_le
      rw [length_cons] at length
      exact ih part.length (by omega) part reaches rfl

end

end RakudoStar.Foundation
