import RakudoStar.Parrot.HashIterate

/-!
# Updating from and cloning to another table

Both operations store the entries of another table one by one. They are correct when the table
has no buckets left from its past: updating an emptied table and cloning into one in use
allocate buckets but keep the old free list.
-/

namespace RakudoStar.Parrot

open Foundation List Option

variable {W : Type} [DecidableEq W] {rt : Runtime W}

/-- The table has the given types and holds exactly the entries of the map. -/
structure Stores (rt : Runtime W) (type : TableType) (h : Hash W)
    (map : FiniteMap (hashCompare rt type.keyType) W) : Prop where
  type : h.type = type
  holds : Holds rt h map.entries

variable {type : TableType} {h : Hash W} {map : FiniteMap (hashCompare rt type.keyType) W}

theorem Stores.keyType (stores : Stores rt type h map) : h.keyType = type.keyType :=
  congrArg TableType.keyType stores.type

theorem Stores.entryType (stores : Stores rt type h map) : h.entryType = type.entryType :=
  congrArg TableType.entryType stores.type

theorem Stores.put (lawful : LawfulKeys rt type.keyType) (stores : Stores rt type h map)
    {key : W} (value : W) (usable : type.keyType.indexed = false → key ≠ rt.null) :
    ∃ after bucket, hashPut rt h key value = some (after, bucket) ∧
      Stores rt type after (map.insert key value) := by
  obtain ⟨after, bucket, run, holds, keyType, entryType⟩ := hashPut_spec
    (stores.keyType ▸ lawful) stores.holds value
    (fun linear => usable (stores.keyType ▸ linear))
  rw [stores.keyType] at holds
  refine ⟨after, bucket, run, ⟨?_, holds⟩⟩
  rw [← stores.type, Hash.type, keyType, entryType, Hash.type]

/-- Storing converted entries, by recursion on the entries. -/
theorem Stores.putAll (lawful : LawfulKeys rt type.keyType)
    (convert : W → W → Except Exception (W × W)) (entries : List (W × W)) :
    ∀ {h : Hash W} {map : FiniteMap (hashCompare rt type.keyType) W}, Stores rt type h map →
      (∀ entry ∈ entries, ∀ converted, convert entry.1 entry.2 = .ok converted →
        type.keyType.indexed = false → converted.1 ≠ rt.null) →
      ∃ after, putAll rt convert h entries = some (after, (map.absorb convert entries).2) ∧
        Stores rt type after (map.absorb convert entries).1 := by
  induction entries with
  | nil => exact fun stores _ => ⟨_, rfl, stores⟩
  | cons entry entries ih =>
    intro h map stores usable
    rcases entry with ⟨key, value⟩
    rw [Parrot.putAll, FiniteMap.absorb]
    cases conversion : convert key value with
    | error e => exact ⟨h, rfl, stores⟩
    | ok converted =>
      obtain ⟨stored, bucket, run, storesNext⟩ := stores.put lawful converted.2
        (usable _ (mem_cons_self ..) converted conversion)
      obtain ⟨after, rest, storesAfter⟩ := ih storesNext (forall_mem_cons.mp usable).2
      apply Exists.intro after
      constructor
      · simp only [run, bind_eq_bind, bind_some]
        exact rest
      · exact storesAfter

theorem Stores.allocate (stores : Stores rt type h map) (vacant : h.allocated = false)
    (size : Nat) : Stores rt type (allocateBuckets rt h size) map ∧ map.entries = [] := by
  rcases stores.holds with ⟨isVacant, none⟩ | ⟨free, live, layout, -⟩
  · obtain ⟨free, layout⟩ := @Vacant.allocate W rt _ h isVacant size
    obtain ⟨keyType, entryType⟩ := @types_allocateBuckets W rt h size
    constructor
    · constructor
      · rw [← stores.type, Hash.type, keyType, entryType, Hash.type]
      · rw [none]
        exact .inr ⟨free, [], layout, List.Perm.nil⟩
    · exact none
  · exact absurd layout.allocated (by simp [vacant])

omit [DecidableEq W] in
theorem convertEntry_self (type : TableType) (key value : W) :
    convertEntry rt type type key value = .ok (key, value) := by
  simp only [convertEntry, convertKey, convertValue, if_true]
  rfl

/-- A table with buckets and no entries: it was emptied, or created with a size. -/
def Emptied (h : Hash W) : Prop := h.allocated = true ∧ h.entries = 0

instance (h : Hash W) : Decidable (Emptied h) := inferInstanceAs (Decidable (_ ∧ _))

theorem Stores.presize (stores : Stores rt type h map) (notEmptied : ¬ Emptied h) (size : Nat) :
    Stores rt type (if h.entries ≤ 0 then allocateBuckets rt h size else h) map := by
  by_cases noEntries : h.entries ≤ 0
  · rw [if_pos noEntries]
    have vacant : h.allocated = false := by
      cases allocated : h.allocated with
      | false => rfl
      | true => exact absurd ⟨allocated, Nat.le_zero.mp noEntries⟩ notEmptied
    exact (stores.allocate vacant size).1
  · rw [if_neg noEntries]
    exact stores

section
variable (lawful : LawfulKeys rt type.keyType)
include lawful

theorem hashUpdate_spec (stores : Stores rt type h map) {otherType : TableType} {other : Hash W}
    {otherMap : FiniteMap (hashCompare rt otherType.keyType) W}
    (otherStores : Stores rt otherType other otherMap)
    (notEmptied : other.entries ≠ 0 → type = otherType → ¬ Emptied h)
    (usable : ∀ cells, hashIterate rt other = some cells → ∀ cell ∈ cells, ∀ key,
      convertKey rt type.keyType otherType.keyType (other.keyOf cell) = .ok key →
        type.keyType.indexed = false → key ≠ rt.null) : ∃ after order, order.Perm otherMap.entries ∧
      hashUpdate rt h other = some (after, (map.absorb (convertEntry rt type otherType) order).2) ∧
      Stores rt type after (map.absorb (convertEntry rt type otherType) order).1 := by
  rw [hashUpdate]
  by_cases empty : other.entries ≤ 0
  · have size := otherStores.holds.size
    have noEntries : otherMap.entries = [] := by
      apply eq_nil_of_length_eq_zero
      rw [← size]
      exact Nat.le_zero.mp empty
    rw [if_pos empty, noEntries]
    exact ⟨h, [], List.Perm.nil, rfl, stores⟩
  obtain ⟨cells, iterated, visits⟩ := hashIterate_spec otherStores.holds
  have usableEntries : ∀ entry ∈ cells.map other.entry, ∀ converted,
      convertEntry rt type otherType entry.1 entry.2 = .ok converted →
        type.keyType.indexed = false → converted.1 ≠ rt.null := by
    intro entry mem converted conversion linear
    obtain ⟨cell, cellMem, rfl⟩ := mem_map.mp mem
    cases keyConversion : convertKey rt type.keyType otherType.keyType (other.keyOf cell) with
    | error e =>
      simp only [convertEntry, Hash.entry_fst, keyConversion] at conversion
      cases conversion
    | ok key =>
      simp only [convertEntry, Hash.entry_fst, keyConversion] at conversion
      cases valueConversion : convertValue rt type.entryType otherType.entryType
          (other.entry cell).2 with
      | error e =>
        rw [valueConversion] at conversion
        cases conversion
      | ok value =>
        rw [valueConversion] at conversion
        cases conversion
        exact usable cells iterated cell cellMem key keyConversion linear
  rw [if_neg empty, iterated]
  simp only [bind_eq_bind, bind_some]
  by_cases sameType : type = otherType
  · subst sameType
    have same : h.keyType = other.keyType ∧ h.entryType = other.entryType :=
      ⟨stores.keyType.trans otherStores.keyType.symm,
        stores.entryType.trans otherStores.entryType.symm⟩
    have presized := stores.presize
      (notEmptied (fun zero => empty (Nat.le_of_eq zero)) rfl) other.mask
    have identity : convertEntry rt type type = fun key value => .ok (key, value) :=
      funext (fun key => funext (fun value => convertEntry_self type key value))
    rw [identity] at usableEntries
    obtain ⟨after, run, storesAfter⟩ := presized.putAll lawful
      (fun key value => .ok (key, value)) (cells.map other.entry) usableEntries
    rw [if_pos same, identity]
    exact ⟨after, cells.map other.entry, visits.entries, run, storesAfter⟩
  have differ : ¬ (h.keyType = other.keyType ∧ h.entryType = other.entryType) := by
    rintro ⟨keyType, entryType⟩
    apply sameType
    rw [← stores.type, ← otherStores.type, Hash.type, Hash.type, keyType, entryType]
  obtain ⟨after, run, storesAfter⟩ := stores.putAll lawful
    (convertEntry rt type otherType) (cells.map other.entry) usableEntries
  rw [if_neg differ, stores.type, otherStores.type]
  exact ⟨after, cells.map other.entry, visits.entries, run, storesAfter⟩

/-- An entry with the value `Parrot_hash_clone_prunable` gives it. -/
def cloneEntry (rt : Runtime W) (entryType : EntryType) (deep : Bool) (key value : W) :
    Except Exception (W × W) :=
  match cloneValue rt entryType deep value with
  | .error e => .error e
  | .ok cloned => .ok (key, cloned)

/-- A new key goes in front of the chain of its slot without a search. -/
theorem Stores.storeNew (stores : Stores rt type h map) (allocated : h.allocated = true) {key : W}
    (value : W) (absent : ∀ entry ∈ map.entries, hashCompare rt type.keyType key entry.1 = false)
    (usable : key ≠ rt.null) :
    ∃ after, hashStoreValueInBucket rt h none (rt.keyHash h.keyType key) key value =
        some after ∧ after.allocated = true ∧ Stores rt type after (map.insert key value) := by
  rcases stores.holds with ⟨vacant, -⟩ | ⟨free, live, layout, same⟩
  · exact absurd allocated (by simp [vacant.allocated])
  have liveAbsent : ∀ cell ∈ live, hashCompare rt h.keyType key (h.keyOf cell) = false := by
    intro cell mem
    rw [stores.keyType]
    exact absent _ (same.symm.mem_iff.mp (mem_map_of_mem mem))
  obtain ⟨after, free', live', run, afterLayout, entries, keyType, entryType⟩ :=
    storeNew_spec (stores.keyType ▸ lawful) layout value liveAbsent (fun _ => usable)
  refine ⟨after, run, afterLayout.allocated, ⟨?_, .inr ⟨free', live', afterLayout, ?_⟩⟩⟩
  · rw [← stores.type, Hash.type, keyType, entryType, Hash.type]
  · rw [entries, FiniteMap.entries_insert, insertEntry_of_absent value absent]
    exact perm_append_comm.trans (same.cons _)

/-- Cloning entries whose keys are new to the table, by recursion on the entries. -/
theorem Stores.cloneAll (entryType : EntryType) (deep : Bool) (entries : List (W × W)) :
    ∀ {dest : Hash W} {map : FiniteMap (hashCompare rt type.keyType) W},
      Stores rt type dest map → dest.allocated = true →
      Distinct (hashCompare rt type.keyType) entries → (∀ entry ∈ entries, entry.1 ≠ rt.null) →
      (∀ entry ∈ entries, ∀ stored ∈ map.entries,
        hashCompare rt type.keyType entry.1 stored.1 = false) →
      ∃ after, cloneAll rt entryType deep dest entries =
          some (after, (map.absorb (cloneEntry rt entryType deep) entries).2) ∧
        Stores rt type after (map.absorb (cloneEntry rt entryType deep) entries).1 := by
  induction entries with
  | nil => exact fun stores _ _ _ _ => ⟨_, rfl, stores⟩
  | cons entry entries ih =>
    intro dest map stores allocated distinct notNull apart
    rcases entry with ⟨key, value⟩
    rw [Parrot.cloneAll, FiniteMap.absorb, cloneEntry]
    cases cloning : cloneValue rt entryType deep value with
    | error e => exact ⟨dest, rfl, stores⟩
    | ok cloned =>
      have usable : key ≠ rt.null := notNull _ (mem_cons_self ..)
      have absent := apart _ (mem_cons_self ..)
      obtain ⟨stored, run, storedAllocated, storesNext⟩ :=
        stores.storeNew lawful allocated cloned absent usable
      have inserted : (map.insert key cloned).entries = map.entries ++ [(key, cloned)] :=
        insertEntry_of_absent cloned absent
      have apartNext : ∀ other ∈ entries, ∀ present ∈ (map.insert key cloned).entries,
          hashCompare rt type.keyType other.1 present.1 = false := by
        intro other otherMem present presentMem
        rw [inserted] at presentMem
        rcases mem_append.mp presentMem with before | here
        · exact apart other (mem_cons_of_mem _ otherMem) present before
        · rw [mem_singleton.mp here]
          exact rel_of_pairwise_cons distinct (mem_map_of_mem otherMem)
      obtain ⟨after, rest, storesAfter⟩ := ih storesNext storedAllocated
        (List.Pairwise.of_cons distinct)
        (forall_mem_cons.mp notNull).2 apartNext
      apply Exists.intro after
      constructor
      · simp only [if_neg usable, run, bind_eq_bind, bind_some]
        exact rest
      · exact storesAfter

/-- `Parrot_hash_clone_prunable` makes a vacant table a copy of the source. -/
theorem hashClonePrunable_spec {dest : Hash W} {destType : TableType}
    (stores : Stores rt type h map) {destMap : FiniteMap (hashCompare rt destType.keyType) W}
    (destStores : Stores rt destType dest destMap) (sameKeys : destType.keyType = type.keyType)
    (vacant : dest.allocated = false)
    (notNull : ∀ cells, hashIterate rt h = some cells → ∀ cell ∈ cells, h.keyOf cell ≠ rt.null)
    (deep : Bool) :
    ∃ after order, order.Perm map.entries ∧ hashClonePrunable rt h dest deep = some (after,
        ((FiniteMap.empty : FiniteMap (hashCompare rt destType.keyType) W).absorb
          (cloneEntry rt type.entryType deep) order).2) ∧ Stores rt destType after
        (FiniteMap.empty.absorb (cloneEntry rt type.entryType deep) order).1 := by
  obtain ⟨cells, iterated, visits⟩ := hashIterate_spec stores.holds
  have allocated := (destStores.allocate vacant h.mask).1
  have emptyMap : destMap = FiniteMap.empty := by
    have noEntries := (destStores.allocate vacant h.mask).2
    rcases destMap with ⟨entries, distinct⟩
    subst noEntries
    rfl
  rw [emptyMap] at allocated
  have isAllocated : (allocateBuckets rt dest h.mask).allocated = true :=
    (onlyLinks_pushFree _ _).allocated
  have distinct : Distinct (hashCompare rt destType.keyType) (cells.map h.entry) := by
    rw [sameKeys]
    exact map.distinct.perm lawful.equivalence visits.entries.symm
  obtain ⟨after, run, storesAfter⟩ := allocated.cloneAll (sameKeys ▸ lawful) type.entryType
    deep (cells.map h.entry) isAllocated distinct
    (by
      intro entry mem
      obtain ⟨cell, cellMem, rfl⟩ := mem_map.mp mem
      exact notNull cells iterated cell cellMem)
    (fun entry _ stored mem => absurd mem not_mem_nil)
  refine ⟨after, cells.map h.entry, visits.entries, ?_, storesAfter⟩
  simp only [hashClonePrunable, iterated, bind_eq_bind, bind_some, stores.entryType]
  exact run

end

end RakudoStar.Parrot
