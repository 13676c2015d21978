import RakudoStar.P6opaque.Object

/-!
# Slots and storage

The attributes of the classes from the root on get the next slot and the storage behind the one
before. A class whose MRO ends in that of another one has its slots, at the same offsets.
-/

namespace RakudoStar.P6opaque

open SixModel List Option
open Foundation

variable {C T V W : Type} [DecidableEq C] {entries : List (String × Nat)} {name : String}
  {found : Nat} (h : Hierarchy C T Pmc) (attributes : List (Attribute T Pmc)) (slot : Nat)
  (map : NameMap) (classes : List C) {classKey : C}

/-- The name map of a class whose first slot is given. -/
def classMap (slot : Nat) (attributes : List (Attribute T Pmc)) : NameMap :=
  (attributes.foldl mapAttribute (none, slot)).1

/-- The name maps of classes, the first with the given first slot. -/
def classMaps (h : Hierarchy C T Pmc) : Nat → List C → List (C × NameMap)
  | _, [] => []
  | slot, current :: classes =>
    (current, classMap slot (h.attributes current)) ::
      classMaps h (slot + (h.attributes current).length) classes

/-- The attributes of classes, in slot order. -/
def classAttributes (h : Hierarchy C T Pmc) (classes : List C) : List (Attribute T Pmc) :=
  classes.flatMap h.attributes

/-- Who a slot belongs to: the class and the name of its attribute. -/
def slotOwners (h : Hierarchy C T Pmc) (classes : List C) : List (C × String) :=
  classes.flatMap fun owner => (h.attributes owner).map fun attr => (owner, attr.name)

theorem foldl_mapAttribute_slot
    (slot : Nat) : (attributes.foldl mapAttribute (map, slot)).2 = slot + attributes.length := by
  induction attributes generalizing map slot with
  | nil => rfl
  | cons attr attributes ih =>
    rw [foldl_cons, mapAttribute, ih, length_cons]
    omega

theorem foldl_mapClass (m : IndexMapping C T) : classes.foldl (mapClass h) m =
      { flatList := m.flatList ++ classAttributes h classes
        nameMaps := m.nameMaps ++ classMaps h m.currentSlot classes
        currentSlot := m.currentSlot + (classAttributes h classes).length
        mi := m.mi || classes.any fun current => decide ((h.parents current).length > 1) } := by
  induction classes generalizing m with
  | nil => simp [classAttributes, classMaps]
  | cons current classes ih =>
    rw [foldl_cons, ih]
    simp [mapClass, classMaps, classMap, classAttributes, foldl_mapAttribute_slot,
      add_assoc, Bool.or_assoc]

theorem indexMapping_eq (target : C) : indexMappingAndFlatList h target =
      { flatList := classAttributes h (h.mro target).reverse
        nameMaps := classMaps h 0 (h.mro target).reverse
        currentSlot := (classAttributes h (h.mro target).reverse).length
        mi := (h.mro target).reverse.any fun current =>
          decide ((h.parents current).length > 1) } := by
  rw [indexMappingAndFlatList, foldl_mapClass]
  simp

theorem classMaps_append (first second : List C) :
    classMaps h slot (first ++ second) = classMaps h slot first ++
        classMaps h (slot + (classAttributes h first).length) second := by
  induction first generalizing slot with
  | nil => simp [classMaps, classAttributes]
  | cons current first ih =>
    simp [classMaps, classAttributes, ih, add_assoc]

theorem map_fst_classMaps : (classMaps h slot classes).map Prod.fst = classes := by
  induction classes generalizing slot with
  | nil => rfl
  | cons current classes ih => simp [classMaps, ih]

theorem lookup_foldl_mapAttribute
    (slot : Nat) (final : (attributes.foldl mapAttribute (map, slot)).1 = some entries)
    (lookup : entries.lookup name = some found) : (map.getD []).lookup name = some found ∨
      slot ≤ found ∧ (attributes[found - slot]?).map Attribute.name = some name := by
  induction attributes generalizing map slot with
  | nil =>
    left
    have whole : map = some entries := final
    rw [whole]
    exact lookup
  | cons attr attributes ih =>
    rw [foldl_cons, mapAttribute] at final
    rcases ih _ _ final with earlier | ⟨behind, named⟩
    · rw [getD_some, lookup_cons] at earlier
      by_cases same : name = attr.name
      · right
        rw [same, beq_self_eq_true] at earlier
        cases earlier
        exact ⟨le_rfl, by rw [Nat.sub_self, same]; rfl⟩
      left
      rw [beq_false_of_ne same] at earlier
      exact earlier
    right
    refine ⟨Nat.le_of_succ_le behind, ?_⟩
    have shifted : found - slot = found - (slot + 1) + 1 := by omega
    rw [shifted, getElem?_cons_succ]
    exact named

theorem slotOwner_of_lookup {key : C}
    (entry : (classMaps h slot classes).find? (fun entry => entry.1 = classKey) =
      some (key, some entries)) (lookup : entries.lookup name = some found) :
    slot ≤ found ∧ (slotOwners h classes)[found - slot]? = some (classKey, name) := by
  induction classes generalizing slot with
  | nil => cases entry
  | cons current classes ih =>
    rw [classMaps, find?_cons] at entry
    by_cases here : current = classKey
    · rw [decide_eq_true here] at entry
      have map : classMap slot (h.attributes current) = some entries :=
        congrArg Prod.snd (some.inj entry)
      rcases lookup_foldl_mapAttribute _ _ _ map lookup with impossible | ⟨behind, named⟩
      · cases impossible
      refine ⟨behind, ?_⟩
      rcases map_eq_some_iff.mp named with ⟨attr, atSlot, attrName⟩
      have inside : found - slot < (h.attributes current).length :=
        (List.getElem?_eq_some_iff.mp atSlot).1
      rw [slotOwners, flatMap_cons, getElem?_append_left (by simpa using inside),
        getElem?_map, atSlot, map_some, attrName, here]
    rw [decide_eq_false here] at entry
    rcases ih _ entry with ⟨behind, owner⟩
    refine ⟨Nat.le_of_add_right_le behind, ?_⟩
    have beyond : (h.attributes current).length ≤ found - slot := by omega
    rw [slotOwners, flatMap_cons, getElem?_append_right (by simpa using beyond), length_map]
    have shifted : found - slot - (h.attributes current).length =
        found - (slot + (h.attributes current).length) := by omega
    rw [shifted]
    exact owner

/-- The bytes of an attribute. -/
def storageSize (r : Representations T V W) (attr : Attribute T Pmc) : Nat :=
  attributeSize r (flattenedType r attr)

/-- The container that a null slot is vivified with. -/
def vivifies (r : Representations T V W) (attr : Attribute T Pmc) : Option Pmc :=
  if ((flattenedType r attr).map r.boxedPrimitive).getD .none = .none then
    attr.autoVivContainer
  else none

/-- The data that the accessors use are those of an array of attributes. -/
structure LaidOut (r : Representations T V W) (data : ReprData C T)
    (attributes : List (Attribute T Pmc)) : Prop where
  offsets : data.attributeOffsets = fieldOffsets 0 (attributes.map (storageSize r))
  flattened : data.flattenedStables = attributes.map (flattenedType r)
  autoViv : data.autoVivValues = attributes.map (vivifies r)

section
omit [DecidableEq C]

variable {data noted : ReprData C T} {slot : Nat}

theorem noteBoxTarget_fields {primitive : BoxedPrimitive}
    (done : noteBoxTarget slot primitive data = .ok noted) :
    noted.attributeOffsets = data.attributeOffsets ∧
      noted.nameToIndexMapping = data.nameToIndexMapping ∧ noted.mi = data.mi := by
  unfold noteBoxTarget at done
  split at done
  · split at done
    · cases done
    · cases done
      exact ⟨rfl, rfl, rfl⟩
  · split at done
    · cases done
    · cases done
      exact ⟨rfl, rfl, rfl⟩
  · split at done
    · cases done
    · cases done
      exact ⟨rfl, rfl, rfl⟩
  · cases done
    exact ⟨rfl, rfl, rfl⟩

variable {r : Representations T V W}

theorem noteAttribute_fields {flattened : Option T} {boxTarget : Bool}
    (done : noteAttribute r slot flattened boxTarget data = .ok noted) :
    noted.nameToIndexMapping = data.nameToIndexMapping ∧ noted.mi = data.mi := by
  unfold noteAttribute at done
  split at done
  · cases done
    exact ⟨rfl, rfl⟩
  unfold noteFlattened at done
  dsimp only at done
  split at done
  · rcases Except.of_bind done with ⟨targeted, target, finished⟩
    cases finished
    exact (noteBoxTarget_fields target).2
  · cases done
    exact ⟨rfl, rfl⟩

theorem allocateAttribute_eq {state next : ReprData C T × Nat}
    {attr : Attribute T Pmc} (allocated : allocateAttribute r state attr = .ok next) :
    next.1.attributeOffsets = state.1.attributeOffsets ++ [state.2] ∧
      next.1.flattenedStables = state.1.flattenedStables ++ [flattenedType r attr] ∧
      next.1.autoVivValues = state.1.autoVivValues ++ [vivifies r attr] ∧
      next.1.nameToIndexMapping = state.1.nameToIndexMapping ∧
      next.1.mi = state.1.mi ∧ next.2 = state.2 + storageSize r attr := by
  rcases Except.of_bind allocated with ⟨noted, done, finished⟩
  cases finished
  have same := noteAttribute_fields done
  exact ⟨rfl, rfl, rfl, same.1, same.2, rfl⟩

/-- Allocating attributes; the induction is on their list. -/
theorem foldlM_allocateAttribute
    (attributes : List (Attribute T Pmc)) {state final : ReprData C T × Nat}
    (allocated : attributes.foldlM (allocateAttribute r) state = .ok final) :
    final.1.attributeOffsets =
        state.1.attributeOffsets ++ fieldOffsets state.2 (attributes.map (storageSize r)) ∧
      final.1.flattenedStables = state.1.flattenedStables ++ attributes.map (flattenedType r) ∧
      final.1.autoVivValues = state.1.autoVivValues ++ attributes.map (vivifies r) ∧
      final.1.nameToIndexMapping = state.1.nameToIndexMapping ∧ final.1.mi = state.1.mi ∧
      final.2 = state.2 + (attributes.map (storageSize r)).sum := by
  induction attributes generalizing state with
  | nil =>
    cases allocated
    simp [fieldOffsets]
  | cons attr attributes ih =>
    rw [foldlM_cons] at allocated
    rcases Except.of_bind allocated with ⟨next, first, rest⟩
    rcases allocateAttribute_eq first with ⟨offsets, flattened, autoViv, names, mi, size⟩
    rcases ih rest with ⟨restOffsets, restFlattened, restAutoViv, restNames, restMi, restSize⟩
    refine ⟨?_, ?_, ?_, restNames.trans names, restMi.trans mi, ?_⟩
    · rw [restOffsets, offsets, size]
      simp [fieldOffsets]
    · rw [restFlattened, flattened]
      simp
    · rw [restAutoViv, autoViv]
      simp
    · rw [restSize, size, map_cons, sum_cons, add_assoc]

end

def slotAttributes (h : Hierarchy C T Pmc) (target : C) : List (Attribute T Pmc) :=
  classAttributes h (h.mro target).reverse

/-- What the strategy computes for a class. -/
structure Computed (r : Representations T V W) (h : Hierarchy C T Pmc) (target : C)
    (data : ReprData C T) : Prop where
  laidOut : LaidOut r data (slotAttributes h target)
  nameMaps : data.nameToIndexMapping = classMaps h 0 (h.mro target).reverse
  mi : data.mi = (h.mro target).reverse.any fun current =>
    decide ((h.parents current).length > 1)
  size : data.allocationSize = ((slotAttributes h target).map (storageSize r)).sum + headerSize

theorem computed_of_strategy {r : Representations T V W} {h : Hierarchy C T Pmc} {target : C}
    {data : ReprData C T} (done : computeAllocationStrategy r h target = .ok data) :
    Computed r h target data := by
  unfold computeAllocationStrategy at done
  rw [indexMapping_eq] at done
  dsimp only at done
  split at done
  · rename_i noMaps
    have noClasses := congrArg (map Prod.fst) noMaps
    rw [map_fst_classMaps, map_nil, reverse_eq_nil_iff] at noClasses
    exact absurd (h.mem_mro_self target) (by simp [noClasses])
  rcases Except.of_bind done with ⟨final, allocated, finished⟩
  cases finished
  rcases foldlM_allocateAttribute _ allocated with ⟨offsets, flattened, autoViv, names, mi, size⟩
  refine ⟨⟨offsets, flattened, autoViv⟩, names, mi, ?_⟩
  change final.2 + headerSize = _
  rw [size, zero_add]
  rfl

end RakudoStar.P6opaque
