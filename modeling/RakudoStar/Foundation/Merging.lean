import Mathlib.Data.List.Nodup

/-!
# Orders that merge several lists

A merge of lists is a list without repetition of what they hold, with each of them as a
subsequence. What may come first is behind nothing else in any list.
-/

namespace RakudoStar.Foundation

open List

universe u

variable {A : Type u}

/-- A list without repetition that holds what the lists hold, and has each of
them as a subsequence. -/
structure Merges (lists : List (List A)) (order : List A) : Prop where
  nodup : order.Nodup
  members : ∀ entry, entry ∈ order ↔ ∃ list ∈ lists, entry ∈ list
  sublists : ∀ list ∈ lists, list.Sublist order

/-- An entry comes behind nothing in any of the lists. -/
def Leads (entry : A) (lists : List (List A)) : Prop :=
  ∀ list ∈ lists, entry ∉ list.tail

namespace Merges

variable {lists : List (List A)} {order : List A} {first : A} {list : List A}

theorem nil_of_empty (empty : ∀ list ∈ lists, list = []) : Merges lists [] where
  nodup := nodup_nil
  members entry := by
    constructor
    · nofun
    rintro ⟨list, inLists, member⟩
    rw [empty list inLists] at member
    cases member
  sublists list inLists := by
    rw [empty list inLists]

theorem leads_head {rest : List A} (merge : Merges lists (first :: rest)) : Leads first lists := by
  intro list inLists inTail
  have sublist := merge.sublists list inLists
  cases list with
  | nil => cases inTail
  | cons head tail =>
    have behind : tail.Sublist rest := by
      cases sublist with
      | cons _ inRest => exact (sublist_cons_self head tail).trans inRest
      | cons_cons _ inRest => exact inRest
    exact (nodup_cons.mp merge.nodup).1 (behind.subset inTail)

theorem head_of_leads (leads : Leads first lists)
    (inLists : list ∈ lists) (member : first ∈ list) : ∃ tail, list = first :: tail := by
  cases list with
  | nil => cases member
  | cons head tail =>
    rcases mem_cons.mp member with rfl | inTail
    · exact ⟨tail, rfl⟩
    · exact absurd inTail (leads _ inLists)

variable [DecidableEq A]

theorem filter_of_leads (leads : Leads first lists)
    (inLists : list ∈ lists) (member : first ∈ list) : list = first :: list.filter (· ≠ first) := by
  rcases head_of_leads leads inLists member with ⟨tail, rfl⟩
  have absent : first ∉ tail := leads _ inLists
  have kept : tail.filter (· ≠ first) = tail := by
    rw [filter_eq_self]
    intro entry inTail
    have differ : entry ≠ first := fun same => absent (same ▸ inTail)
    simpa using differ
  rw [filter_cons_of_neg (by simp), kept]

theorem cons_of_leads (leads : Leads first lists) (present : ∃ list ∈ lists, first ∈ list)
    (merge : Merges (lists.map fun list => list.filter (· ≠ first)) order) :
    Merges lists (first :: order) where
  nodup := by
    apply nodup_cons.mpr
    apply And.intro _ merge.nodup
    intro inOrder
    rcases (merge.members first).mp inOrder with ⟨filtered, inMap, member⟩
    rcases mem_map.mp inMap with ⟨list, _, rfl⟩
    simp at member
  members entry := by
    rw [mem_cons, merge.members entry]
    constructor
    · rintro (rfl | ⟨filtered, inMap, member⟩)
      · exact present
      · rcases mem_map.mp inMap with ⟨list, inLists, rfl⟩
        exact ⟨list, inLists, mem_of_mem_filter member⟩
    rintro ⟨list, inLists, member⟩
    by_cases same : entry = first
    · exact .inl same
    right
    have kept : entry ∈ list.filter (· ≠ first) := mem_filter.mpr ⟨member, by simpa using same⟩
    exact ⟨_, mem_map_of_mem inLists, kept⟩
  sublists list inLists := by
    have rest : (list.filter (· ≠ first)).Sublist order := merge.sublists _ (mem_map_of_mem inLists)
    by_cases member : first ∈ list
    · rw [filter_of_leads leads inLists member]
      exact rest.cons_cons first
    have kept : list.filter (· ≠ first) = list := by
      rw [filter_eq_self]
      intro entry inList
      have differ : entry ≠ first := fun same => member (same ▸ inList)
      simpa using differ
    rw [kept] at rest
    exact rest.cons first

theorem without (entry : A) (merge : Merges lists order) :
    Merges (lists.map fun list => list.filter (· ≠ entry)) (order.filter (· ≠ entry)) where
  nodup := merge.nodup.filter _
  members other := by
    rw [mem_filter, merge.members other]
    constructor
    · rintro ⟨⟨list, inLists, member⟩, differ⟩
      exact ⟨_, mem_map_of_mem inLists, mem_filter.mpr ⟨member, differ⟩⟩
    rintro ⟨filtered, inMap, member⟩
    rcases mem_map.mp inMap with ⟨list, inLists, rfl⟩
    rcases mem_filter.mp member with ⟨inList, differ⟩
    exact ⟨⟨list, inLists, inList⟩, differ⟩
  sublists filtered inMap := by
    rcases mem_map.mp inMap with ⟨list, inLists, rfl⟩
    exact (merge.sublists list inLists).filter _

end Merges

end RakudoStar.Foundation
