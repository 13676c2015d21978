import Mathlib.Data.List.Forall2
import Mathlib.Data.List.Lex

/-!
# Tuples

The tuples of a list of lists, in the lexicographic order of the positions of their elements.
-/

namespace RakudoStar.Foundation

open List

variable {A B : Type} {lists : List (List A)}

/-- The tuples with one element of each list; the last one changes first. -/
def tuples : List (List A) → List (List A)
  | [] => [[]]
  | list :: lists => list.flatMap fun x => (tuples lists).map (x :: ·)

/-- The elements at some positions, one in each list. -/
def pick (lists : List (List A)) (positions : List Nat) : List (Option A) :=
  List.zipWith (fun list position => list[position]?) lists positions

/-- Every tuple once, in the lexicographic order of the positions. -/
structure Enumerates (lists : List (List A)) (out : List (List A)) : Prop where
  positions : ∃ positions : List (List Nat), positions.Pairwise (List.Lex (· < ·)) ∧
    (∀ tuple, tuple ∈ positions ↔
      List.Forall₂ (fun position list => position < list.length) tuple lists) ∧
    out.map (List.map some) = positions.map (pick lists)

theorem tuples_nil : tuples ([] : List (List A)) = [[]] := rfl

theorem tuples_cons (list : List A) (lists : List (List A)) :
    tuples (list :: lists) = list.flatMap fun x => (tuples lists).map (x :: ·) := rfl

theorem tuples_cons_cons (x : A) (list : List A) (lists : List (List A)) :
    tuples ((x :: list) :: lists) = (tuples lists).map (x :: ·) ++ tuples (list :: lists) := rfl

theorem mem_tuples_iff {tuple : List A} :
    tuple ∈ tuples lists ↔ List.Forall₂ (· ∈ ·) tuple lists := by
  induction lists generalizing tuple with
  | nil => simp [tuples_nil]
  | cons list lists ih =>
    simp only [tuples_cons, mem_flatMap, mem_map, ih, forall₂_cons_right_iff]
    constructor
    · rintro ⟨x, member, rest, members, rfl⟩
      exact ⟨x, rest, member, members, rfl⟩
    · rintro ⟨x, rest, member, members, rfl⟩
      exact ⟨x, member, rest, members, rfl⟩

theorem tuples_pairwise {r : A → A → Prop}
    (sorted : ∀ list ∈ lists, list.Pairwise r) : (tuples lists).Pairwise (List.Lex r) := by
  induction lists with
  | nil => exact pairwise_singleton _ _
  | cons list lists ih =>
    rw [forall_mem_cons] at sorted
    have later := ih sorted.2
    have first := sorted.1
    induction list with
    | nil => exact List.Pairwise.nil
    | cons x list innerHypothesis =>
      rw [pairwise_cons] at first
      rw [tuples_cons_cons, pairwise_append]
      refine ⟨?_, innerHypothesis ⟨first.2, sorted.2⟩ first.2, ?_⟩
      · rw [pairwise_map]
        exact later.imp List.Lex.cons
      intro front inFront back inBack
      simp only [tuples_cons, mem_flatMap, mem_map] at inFront inBack
      obtain ⟨rest, _, rfl⟩ := inFront
      obtain ⟨y, member, rest', _, rfl⟩ := inBack
      exact .rel (first.1 y member)

theorem tuples_map_some (lists : List (List A)) : (tuples lists).map (map some) =
      (tuples (lists.map fun list => range list.length)).map (pick lists) := by
  induction lists with
  | nil => rfl
  | cons list lists ih =>
    have elements : list.map some = (range list.length).map fun k => list[k]? := by
      refine ext_getElem (by simp) fun k inList inRange => ?_
      simp
    have inner : ∀ x : Option A, (tuples lists).map (fun tuple => x :: tuple.map some) =
        (tuples (lists.map fun list => range list.length)).map
          fun tuple => x :: pick lists tuple := by
      intro x
      have split := congrArg (map (x :: ·)) ih
      rwa [map_map, map_map] at split
    rw [map_cons, tuples_cons, tuples_cons, map_flatMap, map_flatMap]
    simp only [map_map]
    calc list.flatMap (fun x => (tuples lists).map (map some ∘ (x :: ·)))
        = (list.map some).flatMap fun x => (tuples lists).map fun tuple =>
            x :: tuple.map some := by
          rw [flatMap_map]
          rfl
      _ = (range list.length).flatMap fun k => (tuples lists).map fun tuple =>
            list[k]? :: tuple.map some := by
          rw [elements, flatMap_map]
      _ = _ := by
          simp only [inner]
          rfl

theorem tuples_enumerates (lists : List (List A)) : Enumerates lists (tuples lists) := by
  constructor
  refine ⟨tuples (lists.map fun list => range list.length), tuples_pairwise ?_, ?_,
    tuples_map_some lists⟩
  · simp only [forall_mem_map]
    exact fun list _ => pairwise_lt_range
  intro tuple
  rw [mem_tuples_iff, forall₂_map_right_iff]
  simp only [mem_range]

end RakudoStar.Foundation
