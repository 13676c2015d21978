import Mathlib.Data.List.Perm.Basic

/-!
# Finite maps over an equivalence test

The value of a dictionary whose keys are compared by a Boolean test: a list of entries with
different keys. Storing under a key that is present replaces the value and keeps the key. Entry
order carries no meaning.
-/

namespace RakudoStar.Foundation

open List

universe u v

variable {K : Type u} {V : Type v}

structure EquivalenceTest (same : K → K → Bool) : Prop where
  refl : ∀ key, same key key = true
  symm : ∀ {key other}, same key other = true → same other key = true
  trans : ∀ {first second third}, same first second = true →
    same second third = true → same first third = true

/-- No two entries have equal keys. -/
def Distinct (same : K → K → Bool) (entries : List (K × V)) : Prop :=
  (entries.map Prod.fst).Pairwise (fun first second => same second first = false)

/-- Replace the value of the first entry with an equal key, or append one. -/
def insertEntry (same : K → K → Bool) (key : K) (value : V) : List (K × V) → List (K × V)
  | [] => [(key, value)]
  | entry :: entries =>
    if same key entry.1 then (entry.1, value) :: entries
    else entry :: insertEntry same key value entries

/-- Drop the first entry with an equal key. -/
def eraseEntry (same : K → K → Bool) (key : K) (entries : List (K × V)) : List (K × V) :=
  entries.eraseP (fun entry => same key entry.1)

/-- The value of the first entry with an equal key. -/
def lookupEntry (same : K → K → Bool) (key : K) (entries : List (K × V)) : Option V :=
  (entries.find? (fun entry => same key entry.1)).map Prod.snd

variable {same : K → K → Bool} {key : K} {entries : List (K × V)}

section

theorem lookupEntry_of_absent (absent : ∀ entry ∈ entries, same key entry.1 = false) :
    lookupEntry same key entries = none := by
  have notFound : entries.find? (fun entry => same key entry.1) = none := by
    rw [find?_eq_none]
    intro entry mem
    simp [absent entry mem]
  rw [lookupEntry, notFound]
  rfl

theorem eraseEntry_of_absent (absent : ∀ entry ∈ entries, same key entry.1 = false) :
    eraseEntry same key entries = entries := by
  apply eraseP_of_forall_not
  intro entry mem
  simp [absent entry mem]

theorem insertEntry_of_absent (value : V) (absent : ∀ entry ∈ entries, same key entry.1 = false) :
    insertEntry same key value entries = entries ++ [(key, value)] := by
  induction entries with
  | nil => rfl
  | cons entry entries ih =>
    have rest := ih (forall_mem_cons.mp absent).2
    rw [insertEntry, absent entry (mem_cons_self ..), rest]
    rfl

end

section

variable {rest : List (K × V)} {found : K × V}

theorem Distinct.perm (laws : EquivalenceTest same) {first second : List (K × V)}
    (perm : first.Perm second) (distinct : Distinct same first) : Distinct same second := by
  apply ((perm.map Prod.fst).pairwise_iff ?_).mp distinct
  intro key other differ
  cases test : same key other with
  | false => rfl
  | true => exact absurd (laws.symm test) (by simp [differ])

theorem eq_of_same (laws : EquivalenceTest same) (distinct : Distinct same entries)
    (perm : entries.Perm (found :: rest)) (sameFound : same key found.1 = true)
    {entry : K × V} (mem : entry ∈ entries) (sameEntry : same key entry.1 = true) :
    entry = found := by
  rcases mem_cons.mp (perm.mem_iff.mp mem) with entryEq | inRest
  · exact entryEq
  have apart : same entry.1 found.1 = false :=
    rel_of_pairwise_cons (distinct.perm laws perm) (mem_map_of_mem inRest)
  have equalKeys := laws.trans (laws.symm sameEntry) sameFound
  exact absurd equalKeys (by simp [apart])

theorem lookupEntry_of_perm (laws : EquivalenceTest same)
    (distinct : Distinct same entries) (perm : entries.Perm (found :: rest))
    (sameFound : same key found.1 = true) : lookupEntry same key entries = some found.2 := by
  have foundMem : found ∈ entries := perm.mem_iff.mpr (mem_cons_self ..)
  cases search : entries.find? (fun entry => same key entry.1) with
  | none =>
    have none := find?_eq_none.mp search found foundMem
    exact absurd sameFound none
  | some entry =>
    have sameEntry : same key entry.1 = true := by
      have test := find?_some search
      exact test
    have entryEq := eq_of_same laws distinct perm sameFound (mem_of_find?_eq_some search) sameEntry
    rw [lookupEntry, search, entryEq]
    rfl

theorem exists_split (present : ∃ entry ∈ entries, same key entry.1 = true) :
    ∃ before entry after, entries = before ++ entry :: after ∧ same key entry.1 = true ∧
      eraseEntry same key entries = before ++ after ∧ ∀ value, insertEntry same key value entries =
        before ++ (entry.1, value) :: after := by
  induction entries with
  | nil =>
    rcases present with ⟨entry, mem, -⟩
    cases mem
  | cons head tail ih =>
    by_cases sameHead : same key head.1 = true
    · exact ⟨[], head, tail, rfl, sameHead, by simp [eraseEntry, sameHead],
        fun value => by simp [insertEntry, sameHead]⟩
    have presentTail : ∃ entry ∈ tail, same key entry.1 = true := by
      rcases present with ⟨entry, mem, sameEntry⟩
      rcases mem_cons.mp mem with rfl | inTail
      · exact absurd sameEntry sameHead
      · exact ⟨entry, inTail, sameEntry⟩
    obtain ⟨before, entry, after, tailEq, sameEntry, erased, inserted⟩ := ih presentTail
    refine ⟨head :: before, entry, after, by rw [tailEq]; rfl, sameEntry, ?_, ?_⟩
    · have skip : eraseEntry same key (head :: tail) = head :: eraseEntry same key tail := by
        simp [eraseEntry, sameHead]
      rw [skip, erased]
      rfl
    intro value
    rw [insertEntry, if_neg sameHead, inserted]
    rfl

theorem eraseEntry_perm (laws : EquivalenceTest same)
    (distinct : Distinct same entries) (perm : entries.Perm (found :: rest))
    (sameFound : same key found.1 = true) : (eraseEntry same key entries).Perm rest := by
  have foundMem : found ∈ entries := perm.mem_iff.mpr (mem_cons_self ..)
  obtain ⟨before, entry, after, entriesEq, sameEntry, erased, -⟩ :=
    exists_split ⟨found, foundMem, sameFound⟩
  have entryEq : entry = found := by
    apply eq_of_same laws distinct perm sameFound _ sameEntry
    simp [entriesEq]
  rw [erased]
  apply (perm_cons found).mp
  calc
    (found :: (before ++ after)).Perm (before ++ found :: after) := perm_middle.symm
    _ = entries := by rw [entriesEq, entryEq]
    entries.Perm (found :: rest) := perm

theorem insertEntry_perm (laws : EquivalenceTest same) (value : V)
    (distinct : Distinct same entries) (perm : entries.Perm (found :: rest))
    (sameFound : same key found.1 = true) :
    (insertEntry same key value entries).Perm ((found.1, value) :: rest) := by
  have foundMem : found ∈ entries := perm.mem_iff.mpr (mem_cons_self ..)
  obtain ⟨before, entry, after, entriesEq, sameEntry, erased, inserted⟩ :=
    exists_split ⟨found, foundMem, sameFound⟩
  have entryEq : entry = found := by
    apply eq_of_same laws distinct perm sameFound _ sameEntry
    simp [entriesEq]
  have restPerm := eraseEntry_perm laws distinct perm sameFound
  rw [erased] at restPerm
  rw [inserted, entryEq]
  exact perm_middle.trans (restPerm.cons _)

end

section

theorem lookupEntry_insertEntry (laws : EquivalenceTest same) (value : V) (wanted : K)
    (entries : List (K × V)) : lookupEntry same wanted (insertEntry same key value entries) =
      if same wanted key then some value else lookupEntry same wanted entries := by
  induction entries with
  | nil =>
    cases test : same wanted key <;> simp [insertEntry, lookupEntry, test]
  | cons entry entries ih =>
    by_cases present : same key entry.1 = true
    · rw [insertEntry, if_pos present]
      -- The wanted key equals the stored one if and only if it equals this entry's.
      have agree : same wanted key = same wanted entry.1 := by
        rw [Bool.eq_iff_iff]
        exact ⟨fun equal => laws.trans equal present,
          fun equal => laws.trans equal (laws.symm present)⟩
      cases test : same wanted entry.1 <;> simp [lookupEntry, agree, test]
    rw [insertEntry, if_neg present]
    cases test : same wanted entry.1 with
    | true =>
      have apart : same wanted key = false := by
        rw [Bool.eq_false_iff]
        intro equal
        exact present (laws.trans (laws.symm equal) test)
      simp [lookupEntry, test, apart]
    | false =>
      simp only [lookupEntry, find?_cons, test] at ih ⊢
      exact ih

theorem insertEntry_keys (value : V) :
    (insertEntry same key value entries).map Prod.fst = entries.map Prod.fst ∨
      ((∀ other ∈ entries.map Prod.fst, same key other = false) ∧
        (insertEntry same key value entries).map Prod.fst = entries.map Prod.fst ++ [key]) := by
  by_cases present : ∃ entry ∈ entries, same key entry.1 = true
  · obtain ⟨before, entry, after, entriesEq, -, -, inserted⟩ := exists_split present
    left
    rw [inserted, entriesEq]
    simp
  have absent : ∀ entry ∈ entries, same key entry.1 = false := by
    intro entry mem
    cases test : same key entry.1 with
    | false => rfl
    | true => exact absurd ⟨entry, mem, test⟩ present
  right
  constructor
  · intro other mem
    obtain ⟨entry, entryMem, rfl⟩ := mem_map.mp mem
    exact absent entry entryMem
  · rw [insertEntry_of_absent value absent]
    simp

theorem Distinct.insertEntry (value : V) (distinct : Distinct same entries) :
    Distinct same (insertEntry same key value entries) := by
  rcases @insertEntry_keys _ _ same key entries value with
    keysEq | ⟨absent, keysEq⟩
  · rw [Distinct, keysEq]
    exact distinct
  rw [Distinct, keysEq, pairwise_append]
  apply And.intro distinct
  constructor
  · exact pairwise_singleton ..
  intro other mem last lastMem
  rw [mem_singleton.mp lastMem]
  exact absent other mem

theorem Distinct.eraseEntry (distinct : Distinct same entries) :
    Distinct same (eraseEntry same key entries) :=
  distinct.sublist (eraseP_sublist.map Prod.fst)

end

structure FiniteMap (same : K → K → Bool) (V : Type v) where
  entries : List (K × V)
  distinct : Distinct same entries

namespace FiniteMap

variable (map : FiniteMap same V)

def empty : FiniteMap same V := ⟨[], List.Pairwise.nil⟩

def card (map : FiniteMap same V) : Nat := map.entries.length

def lookup (map : FiniteMap same V) (key : K) : Option V :=
  lookupEntry same key map.entries

def insert (map : FiniteMap same V) (key : K) (value : V) : FiniteMap same V :=
  ⟨insertEntry same key value map.entries, map.distinct.insertEntry value⟩

def erase (map : FiniteMap same V) (key : K) : FiniteMap same V :=
  ⟨eraseEntry same key map.entries, map.distinct.eraseEntry⟩

@[simp]
theorem entries_insert (key : K) (value : V) :
    (map.insert key value).entries = insertEntry same key value map.entries := rfl

theorem lookup_insert (laws : EquivalenceTest same) (map : FiniteMap same V) (key : K)
    (value : V) (wanted : K) : (map.insert key value).lookup wanted =
      if same wanted key then some value else map.lookup wanted :=
  lookupEntry_insertEntry laws value wanted map.entries

theorem lookup_of_mem (laws : EquivalenceTest same) (map : FiniteMap same V) {entry : K × V}
    (member : entry ∈ map.entries) : map.lookup entry.1 = some entry.2 := by
  rcases append_of_mem member with ⟨before, after, entriesEq⟩
  have front : map.entries.Perm (entry :: (before ++ after)) := by
    rw [entriesEq]
    exact perm_middle
  exact lookupEntry_of_perm laws map.distinct front (laws.refl entry.1)

theorem mem_of_lookup {value : V} (found : map.lookup key = some value) :
    ∃ entry ∈ map.entries, same key entry.1 = true ∧ entry.2 = value := by
  rcases Option.map_eq_some_iff.mp found with ⟨entry, search, rfl⟩
  have test := find?_some search
  exact ⟨entry, mem_of_find?_eq_some search, test, rfl⟩

/-- Store all entries, the later ones replacing the earlier. -/
def overlay (map : FiniteMap same V) (entries : List (K × V)) : FiniteMap same V :=
  entries.foldl (fun map entry => map.insert entry.1 entry.2) map

theorem lookup_overlay (laws : EquivalenceTest same) (below above : FiniteMap same V)
    (wanted : K) : (below.overlay above.entries).lookup wanted =
      (above.lookup wanted).or (below.lookup wanted) := by
  rcases above with ⟨entries, distinct⟩
  simp only [lookup]
  induction entries generalizing below with
  | nil => rfl
  | cons entry entries ih =>
    have apart := pairwise_cons.mp distinct
    have rest := ih (below.insert entry.1 entry.2) apart.2
    rw [overlay, foldl_cons, ← overlay, rest]
    have stored := lookup_insert laws below entry.1 entry.2 wanted
    simp only [lookup] at stored
    rw [stored]
    cases test : same wanted entry.1 with
    | false => simp [lookupEntry, test]
    | true =>
      have absent : lookupEntry same wanted entries = none := by
        apply lookupEntry_of_absent
        intro other member
        rw [Bool.eq_false_iff]
        intro equal
        have differ := apart.1 other.1 (mem_map_of_mem member)
        have same := laws.trans (laws.symm equal) test
        rw [differ] at same
        cases same
      rw [absent]
      simp [lookupEntry, test]

/-- Store the converted entries in order, until a conversion fails. -/
def absorb {E : Type*} (convert : K → V → Except E (K × V)) :
    FiniteMap same V → List (K × V) → FiniteMap same V × Except E Unit
  | map, [] => (map, .ok ())
  | map, (key, value) :: rest =>
    match convert key value with
    | .error e => (map, .error e)
    | .ok converted => absorb convert (map.insert converted.1 converted.2) rest

end FiniteMap

end RakudoStar.Foundation
