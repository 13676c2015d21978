import RakudoStar.Parrot.HashLookup

/-!
# Looking up and iterating

What the read-only operations answer about a table of given entries. Both loops visit the live
cells, one over the chains and one over the buckets.
-/

namespace RakudoStar.Parrot

open Foundation List Option Nat

variable {W : Type} [DecidableEq W] {rt : Runtime W} {h : Hash W}

variable {contents : List (W × W)}

section

section
variable (lawful : LawfulKeys rt h.keyType)
include lawful

theorem hashFind_lookup {free live : List Nat} (layout : Layout rt h free live)
    (same : contents.Perm (live.map h.entry)) (key : W) :
    ∃ bucket, hashFind rt h key = some bucket ∧
      lookupEntry (hashCompare rt h.keyType) key contents =
        bucket.map (fun cell => (h.buckets cell).value) := by
  obtain ⟨bucket, search, found⟩ := hashFind_spec lawful layout key
  apply Exists.intro bucket
  apply And.intro search
  cases found with
  | present inLive equal =>
    have contentsSplit := same.trans ((perm_cons_erase inLive).map h.entry)
    have distinct := layout.distinct.perm lawful.equivalence same.symm
    exact lookupEntry_of_perm lawful.equivalence distinct contentsSplit equal
  | absent absent => exact lookupEntry_of_absent (absent_entries same absent)

theorem hashGetBucket_lookup (holds : Holds rt h contents) (key : W) :
    ∃ bucket, hashGetBucket rt h key = some bucket ∧
      lookupEntry (hashCompare rt h.keyType) key contents =
        bucket.map (fun cell => (h.buckets cell).value) := by
  have size := holds.size
  rw [hashGetBucket]
  by_cases empty : h.entries ≤ 0
  · have noEntries : h.size = 0 := le_zero.mp empty
    rw [noEntries] at size
    have contentsEq : contents = [] := eq_nil_of_length_eq_zero size.symm
    rw [if_pos empty, contentsEq]
    exact ⟨none, rfl, rfl⟩
  rw [if_neg empty]
  rcases holds with ⟨vacant, -⟩ | ⟨free, live, layout, same⟩
  · exact absurd (Nat.le_of_eq vacant.entries) empty
  · exact hashFind_lookup lawful layout same key

theorem hashGet_spec (holds : Holds rt h contents) (key : W) : hashGet rt h key =
      some ((lookupEntry (hashCompare rt h.keyType) key contents).getD rt.null) := by
  obtain ⟨bucket, search, lookup⟩ := hashGetBucket_lookup lawful holds key
  rw [lookup, hashGet]
  by_cases empty : h.entries ≤ 0
  · rw [hashGetBucket, if_pos empty] at search
    rw [if_pos empty, ← some.inj search]
    rfl
  have choice : (if h.keyType = .string then
      hashGetBucketString rt h key (rt.keyHash h.keyType key)
      else hashGetBucket rt h key) = some bucket := by
    by_cases isString : h.keyType = .string
    · rw [if_pos isString, search_string_eq lawful isString, ← hashFind_eq lawful]
      rw [hashGetBucket, if_neg empty] at search
      exact search
    · rw [if_neg isString, search]
  rw [if_neg empty]
  simp only [choice]
  cases bucket <;> rfl

theorem hashExists_spec (holds : Holds rt h contents) (key : W) : hashExists rt h key =
      some (lookupEntry (hashCompare rt h.keyType) key contents).isSome := by
  obtain ⟨bucket, search, lookup⟩ := hashGetBucket_lookup lawful holds key
  rw [lookup, hashExists, search, isSome_map]
  rfl

end

end

theorem filter_perm_append {cells : List Nat} {p q r : Nat → Bool}
    (split : ∀ cell ∈ cells, r cell = (p cell || q cell))
    (apart : ∀ cell ∈ cells, p cell = true → q cell = false) :
    (cells.filter r).Perm (cells.filter p ++ cells.filter q) := by
  induction cells with
  | nil => exact List.Perm.nil
  | cons cell cells ih =>
    have rest := ih
      (forall_mem_cons.mp split).2
      (forall_mem_cons.mp apart).2
    have here := split cell (mem_cons_self ..)
    cases inFirst : p cell with
    | true =>
      have notSecond := apart cell (mem_cons_self ..) inFirst
      simp only [filter_cons, here, inFirst, notSecond, Bool.true_or, if_true,
        Bool.false_eq_true, if_false, cons_append]
      exact rest.cons cell
    | false =>
      cases inSecond : q cell with
      | true =>
        simp only [filter_cons, here, inFirst, inSecond, Bool.or_true, if_true,
          Bool.false_eq_true, if_false]
        exact (rest.cons cell).trans perm_middle.symm
      | false =>
        simp only [filter_cons, here, inFirst, inSecond, Bool.or_false,
          Bool.false_eq_true, if_false]
        exact rest

theorem flatMap_location_perm (location : Nat → Nat) (cells : List Nat) (size : Nat) :
    ((range size).flatMap (fun i => cells.filter (fun cell => location cell = i))).Perm
        (cells.filter (fun cell => location cell < size)) := by
  induction size with
  | zero => simp
  | succ size ih =>
    rw [range_succ, flatMap_append, flatMap_singleton]
    apply (ih.append_right _).trans
    apply List.Perm.symm
    apply filter_perm_append
    · intro cell _
      by_cases below : location cell < size
      · have : location cell < size + 1 := by omega
        simp [below, this]
      by_cases equal : location cell = size
      · simp [equal]
      · have : ¬ location cell < size + 1 := by omega
        simp [below, equal, this]
    intro cell _ below
    have below' := of_decide_eq_true below
    have differ : ¬ location cell = size := by omega
    simp [differ]

section

variable {free live : List Nat}

theorem walkChain_eq (layout : Layout rt h free live) {start : Option Pointer}
    {chain : List Nat} {fuel : Nat} (segment : Segment h.ref h.nextOf start chain none)
    (inside : ∀ cell ∈ chain, cell ≤ h.mask) (enough : chain.length ≤ fuel) :
    walkChain h fuel start = some chain := by
  induction chain generalizing start fuel with
  | nil =>
    rw [segment]
    cases fuel <;> rfl
  | cons cell cells ih =>
    rcases segment with ⟨rfl, rest⟩
    cases fuel with
    | zero => simp at enough
    | succ fuel =>
      have walked := ih rest
        (forall_mem_cons.mp inside).2
        (le_of_succ_le_succ enough)
      rw [walkChain, layout.cell?_ref (inside cell (mem_cons_self ..))]
      simp only [bind_eq_bind, bind_some, walked]

theorem walkSlots_spec (layout : Layout rt h free live) {slots : List Nat}
    (inside : ∀ i ∈ slots, i ≤ h.mask) : ∃ cells, walkSlots h slots = some cells ∧
      cells.Perm (slots.flatMap (fun i => live.filter (fun cell => h.location rt cell = i))) := by
  induction slots with
  | nil => exact ⟨[], rfl, List.Perm.nil⟩
  | cons i slots ih =>
    obtain ⟨cells, run, perm⟩ := ih (forall_mem_cons.mp inside).2
    have bound := inside i (mem_cons_self ..)
    obtain ⟨chain, segment, chainPerm⟩ := layout.chains i bound
    have walked := walkChain_eq layout segment
      (fun cell mem => layout.live_le (Layout.chain_mem chainPerm |>.mp mem).1)
      (layout.chain_length_le chainPerm)
    apply Exists.intro (chain ++ cells)
    constructor
    · rw [walkSlots, layout.slot?_eq bound]
      simp only [bind_eq_bind, bind_some, walked, run]
    · rw [flatMap_cons]
      exact chainPerm.append perm

theorem Layout.iterateIndexed (layout : Layout rt h free live) :
    ∃ cells, iterateIndexed h = some cells ∧ cells.Perm live := by
  rw [Parrot.iterateIndexed]
  by_cases empty : h.entries = 0
  · have noLive : live = [] := eq_nil_of_length_eq_zero (layout.entries.symm.trans empty)
    rw [if_pos empty, noLive]
    exact ⟨[], rfl, List.Perm.nil⟩
  have inRange : ∀ i ∈ range (h.mask + 1), i ≤ h.mask := by
    intro i mem
    have := mem_range.mp mem
    omega
  obtain ⟨cells, run, perm⟩ := walkSlots_spec layout inRange
  apply Exists.intro cells
  rw [if_neg empty]
  apply And.intro run
  have collected := perm.trans (flatMap_location_perm (h.location rt) live (h.mask + 1))
  have allBelow : live.filter (fun cell => h.location rt cell < h.mask + 1) = live := by
    apply filter_eq_self.mpr
    intro cell _
    exact decide_eq_true (lt_succ_of_le (Layout.location_le cell))
  rw [allBelow] at collected
  exact collected

/-- The linear loop from `cell` on, with the entries still to be found. -/
theorem iterateLinear_eq (allocated : h.allocated = true) (count : Nat) :
    ∀ {fuel cell found : Nat}, count ≤ fuel → cell + count = h.mask + 1 →
      found + ((range' cell count).filter (fun c => h.keyOf c ≠ rt.null)).length = h.entries →
      iterateLinear rt h fuel cell found =
        some ((range' cell count).filter (fun c => h.keyOf c ≠ rt.null)) := by
  induction count with
  | zero =>
    intro fuel cell found _ _ total
    have done : ¬ found < h.entries := by
      simp only [range'_zero, filter_nil, length_nil] at total
      omega
    cases fuel <;> simp [iterateLinear, done]
  | succ count ih =>
    intro fuel cell found enough position total
    obtain ⟨fuel, rfl⟩ := exists_eq_succ_of_ne_zero
      (Nat.ne_zero_of_lt (Nat.lt_of_lt_of_le (succ_pos count) enough))
    have inside : cell ≤ h.mask := by omega
    have next : cell + 1 + count = h.mask + 1 := by omega
    rw [range'_succ] at total ⊢
    by_cases nullKey : h.keyOf cell = rt.null
    · rw [filter_cons_of_neg (by simpa using nullKey)] at total ⊢
      have rest := ih (le_of_succ_le_succ enough) next total
      by_cases more : found < h.entries
      · have nullBucket : (h.buckets cell).key = rt.null := nullKey
        rw [iterateLinear, if_pos more]
        simp only [allocated, inside, nullBucket, and_self, if_true]
        exact rest
      have noneLeft : ((range' (cell + 1) count).filter (fun c => h.keyOf c ≠ rt.null)) = [] := by
        apply eq_nil_of_length_eq_zero
        omega
      rw [iterateLinear, if_neg more, noneLeft]
    rw [filter_cons_of_pos (by simpa using nullKey)] at total ⊢
    rw [length_cons] at total
    have more : found < h.entries := by omega
    have rest := @ih fuel (cell + 1) (found + 1) (le_of_succ_le_succ enough) next (by omega)
    have liveBucket : ¬ (h.buckets cell).key = rt.null := nullKey
    rw [iterateLinear, if_pos more]
    simp only [allocated, inside, liveBucket, and_self, if_true, if_false, rest]
    rfl

theorem Layout.iterateLinear (layout : Layout rt h free live) (linear : h.keyType.indexed = false) :
    ∃ cells, iterateLinear rt h (h.mask + 1) 0 0 = some cells ∧ cells.Perm live := by
  have marked : ((List.range (h.mask + 1)).filter (fun c => h.keyOf c ≠ rt.null)).Perm live := by
    apply (layout.cells.symm.filter _).trans
    have freeGone : free.filter (fun c => h.keyOf c ≠ rt.null) = [] := by
      apply filter_eq_nil_iff.mpr
      intro cell mem
      simp [layout.freeKeys cell mem]
    have liveKept : live.filter (fun c => h.keyOf c ≠ rt.null) = live := by
      apply filter_eq_self.mpr
      intro cell mem
      exact decide_eq_true (layout.liveKeys linear cell mem)
    rw [filter_append, freeGone, liveKept]
    exact List.Perm.refl _
  have total : 0 + ((range' 0 (h.mask + 1)).filter
      (fun c => h.keyOf c ≠ rt.null)).length = h.entries := by
    rw [← range_eq_range', marked.length_eq, layout.entries, Nat.zero_add]
  have run := iterateLinear_eq layout.allocated (h.mask + 1) (Nat.le_refl _) (Nat.zero_add _) total
  rw [← range_eq_range'] at run
  exact ⟨_, run, marked⟩

end

/-- The cells an iteration runs over, each once, with the table's entries. -/
structure Visits (h : Hash W) (contents : List (W × W)) (cells : List Nat) : Prop where
  nodup : cells.Nodup
  entries : (cells.map h.entry).Perm contents

section

theorem Layout.visits {free live cells : List Nat} (layout : Layout rt h free live)
    (same : contents.Perm (live.map h.entry)) (perm : cells.Perm live) :
    Visits h contents cells where
  nodup := perm.nodup_iff.mpr layout.live_nodup
  entries := (perm.map h.entry).trans same.symm

theorem iterateIndexed_spec (holds : Holds rt h contents) :
    ∃ cells, iterateIndexed h = some cells ∧ Visits h contents cells := by
  rcases holds with ⟨vacant, rfl⟩ | ⟨free, live, layout, same⟩
  · exact ⟨[], if_pos vacant.entries, nodup_nil, List.Perm.nil⟩
  · obtain ⟨cells, run, perm⟩ := layout.iterateIndexed
    exact ⟨cells, run, layout.visits same perm⟩

theorem iterateLinear_spec (holds : Holds rt h contents) (linear : h.keyType.indexed = false) :
    ∃ cells, iterateLinear rt h (h.mask + 1) 0 0 = some cells ∧ Visits h contents cells := by
  rcases holds with ⟨vacant, rfl⟩ | ⟨free, live, layout, same⟩
  · have done : ¬ 0 < h.entries := by simp [vacant.entries]
    refine ⟨[], ?_, nodup_nil, List.Perm.nil⟩
    rw [iterateLinear, if_neg done]
  · obtain ⟨cells, run, perm⟩ := layout.iterateLinear linear
    exact ⟨cells, run, layout.visits same perm⟩

/-- `parrot_hash_iterate` visits every entry exactly once. -/
theorem hashIterate_spec (holds : Holds rt h contents) :
    ∃ cells, hashIterate rt h = some cells ∧ Visits h contents cells := by
  cases indexed : h.keyType.indexed with
  | true =>
    rw [hashIterate, indexed]
    exact iterateIndexed_spec holds
  | false =>
    rw [hashIterate, indexed]
    exact iterateLinear_spec holds indexed

end

end RakudoStar.Parrot
