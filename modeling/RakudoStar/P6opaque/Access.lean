import RakudoStar.P6opaque.Slots

/-!
# Where attributes are stored

The storage of an attribute does not depend on the hint, if it was computed from a class between
the declaring one and the object's own; different slots have disjoint storage.
-/

namespace RakudoStar.P6opaque

open SixModel List
open Foundation

variable {C T V W : Type} [DecidableEq C]
  {r : Representations T V W} {h : Hierarchy C T Pmc} {data : ReprData C T}
  {target classKey : C} {name : String} {slot : Nat} {flattened : Option T} {target : C}
  {slot offset size : Nat} {hint : Int}

/-- An object has the data of its type and a body of the size they give. -/
structure Allocated (r : Representations T V W) (h : Hierarchy C T Pmc) (object : Opaque C)
    (data : ReprData C T) : Prop where
  strategy : computeAllocationStrategy r h object.type = .ok data
  fits : object.body.length + headerSize = data.allocationSize

structure SlotStorage (r : Representations T V W) (data : ReprData C T)
    (slot offset size : Nat) (flattened : Option T) : Prop where
  offsets : data.attributeOffsets[slot]? = some offset
  flattenedStables : data.flattenedStables[slot]? = some flattened
  size_eq : size = attributeSize r flattened

/-- A hint of none, or computed from a class between that class and the object's. -/
def ValidHint (r : Representations T V W) (h : Hierarchy C T Pmc) (target classKey : C)
    (name : String) (hint : Int) : Prop :=
  hint = noHint ∨ ∃ between ∈ h.mro target, classKey ∈ h.mro between ∧
      hintFor r h between classKey name = .ok hint

omit [DecidableEq C] in
theorem reverse_mro_of_suffix {first second : List C} (suffix : first <:+ second) :
    ∃ rest, second.reverse = first.reverse ++ rest := by
  rcases suffix with ⟨front, rfl⟩
  exact ⟨front.reverse, reverse_append⟩

theorem find?_classMaps_append (slot : Nat) (first second : List C) (member : classKey ∈ first) :
    (classMaps h slot (first ++ second)).find? (fun entry => entry.1 = classKey) =
      (classMaps h slot first).find? (fun entry => entry.1 = classKey) := by
  rw [classMaps_append, find?_append]
  have present : ((classMaps h slot first).find? fun entry => entry.1 = classKey).isSome := by
    rw [find?_isSome]
    rw [← map_fst_classMaps h slot first] at member
    rcases mem_map.mp member with ⟨entry, inMaps, key⟩
    exact ⟨entry, inMaps, decide_eq_true key⟩
  rw [Option.or_of_isSome present]

section

variable (computed : Computed r h target data)

include computed

/-- A class whose MRO ends in another's has the other's slots. -/
theorem tryGetSlot_of_suffix {other : C} {otherData : ReprData C T}
    (computedOther : Computed r h other otherData)
    (suffix : h.mro other <:+ h.mro target) (member : classKey ∈ h.mro other)
    (name : String) : tryGetSlot h data classKey name = tryGetSlot h otherData classKey name := by
  rcases reverse_mro_of_suffix suffix with ⟨rest, walk⟩
  unfold tryGetSlot
  rw [computed.nameMaps, computedOther.nameMaps, walk,
    find?_classMaps_append 0 _ _ (mem_reverse.mpr member)]

/-- Without multiple inheritance a hint is the slot that the lookup gives. -/
theorem tryGetSlot_of_hintFor {between : C}
    (single : data.mi = false) (inTarget : between ∈ h.mro target)
    (inBetween : classKey ∈ h.mro between)
    (hinted : hintFor r h between classKey name = .ok hint) (given : 0 ≤ hint) :
    tryGetSlot h data classKey name = .ok (some hint.toNat) := by
  rcases Except.of_bind hinted with ⟨betweenData, strategy, looked⟩
  rcases Except.of_bind looked with ⟨slot, found, answer⟩
  have inheritance : h.SingleInheritance target := by
    intro ancestor member
    rw [computed.mi, any_eq_false] at single
    have notMany := single ancestor (mem_reverse.mpr member)
    simpa using notMany
  rw [tryGetSlot_of_suffix computed (computed_of_strategy strategy)
    (h.mro_suffix inheritance inTarget) inBetween, found]
  cases slot with
  | none =>
    cases answer
    exact absurd given (by decide)
  | some slot =>
    cases answer
    rfl

theorem resolveSlot_of_valid (valid : ValidHint r h target classKey name hint) :
    resolveSlot h data classKey name hint = tryGetSlot h data classKey name := by
  unfold resolveSlot
  split
  · rename_i direct
    rcases valid with rfl | ⟨between, inTarget, inBetween, hinted⟩
    · exact absurd direct.1 (by decide)
    · exact (tryGetSlot_of_hintFor computed direct.2 inTarget inBetween hinted direct.1).symm
  · rfl

theorem slotOwner_of_tryGetSlot (found : tryGetSlot h data classKey name = .ok (some slot)) :
    (slotOwners h (h.mro target).reverse)[slot]? = some (classKey, name) := by
  unfold tryGetSlot at found
  rw [computed.nameMaps] at found
  split at found
  · cases found
  · rename_i entry
    exact (slotOwner_of_lookup h 0 _ entry (Except.ok.inj found)).2
  · cases found

theorem slot_injective {firstKey secondKey : C} {firstName secondName : String}
    (first : tryGetSlot h data firstKey firstName = .ok (some slot))
    (second : tryGetSlot h data secondKey secondName = .ok (some slot)) :
    firstKey = secondKey ∧ firstName = secondName := by
  have owner := slotOwner_of_tryGetSlot computed first
  rw [slotOwner_of_tryGetSlot computed second] at owner
  exact Prod.mk.inj (Option.some.inj owner).symm

end

theorem SlotStorage.eq (computed : Computed r h target data)
    (storage : SlotStorage r data slot offset size flattened) :
    offset = (((slotAttributes h target).map (storageSize r)).take slot).sum ∧
      ((slotAttributes h target).map (storageSize r))[slot]? = some size := by
  have atSlot := storage.flattenedStables
  rw [computed.laidOut.flattened, getElem?_map] at atSlot
  rcases Option.map_eq_some_iff.mp atSlot with ⟨attr, isAttr, type⟩
  have sized : ((slotAttributes h target).map (storageSize r))[slot]? = some size := by
    rw [getElem?_map, isAttr, Option.map_some, storage.size_eq, ← type]
    rfl
  refine ⟨?_, sized⟩
  have atOffset := storage.offsets
  rw [computed.laidOut.offsets,
    getElem?_fieldOffsets 0 _ (List.getElem?_eq_some_iff.mp sized).1, Nat.zero_add] at atOffset
  exact (Option.some.inj atOffset).symm

theorem SlotStorage.inside {object : Opaque C} (allocated : Allocated r h object data)
    (storage : SlotStorage r data slot offset size flattened) :
    offset + size ≤ object.body.length := by
  have computed := computed_of_strategy allocated.strategy
  rcases storage.eq computed with ⟨begins, sized⟩
  have below := sum_take_add_le (List.getElem?_eq_some_iff.mp sized).1 sized
  rw [take_length] at below
  have whole := allocated.fits
  rw [computed.size] at whole
  omega

theorem SlotStorage.disjoint {first second other otherSize : Nat} {otherFlattened : Option T}
    (computed : Computed r h target data) (storage : SlotStorage r data first offset size flattened)
    (otherStorage : SlotStorage r data second other otherSize otherFlattened)
    (differ : first ≠ second) : offset + size ≤ other ∨ other + otherSize ≤ offset := by
  rcases storage.eq computed with ⟨begins, sized⟩
  rcases otherStorage.eq computed with ⟨otherBegins, otherSized⟩
  rcases lt_or_gt_of_ne differ with before | behind
  · left
    have below := sum_take_add_le before sized
    omega
  right
  have below := sum_take_add_le behind otherSized
  omega

end RakudoStar.P6opaque

namespace RakudoStar.P6opaque

open SixModel
open Foundation

variable [DecidableEq C]

variable {object : Opaque C} {world : W} {flattened : Option T} {object after : Opaque C}

theorem locate_of_valid (allocated : Allocated r h object data) (action : String)
    (valid : ValidHint r h object.type classKey name hint) :
    locate r h object action classKey name hint =
      locate r h object action classKey name noHint := by
  have computed := computed_of_strategy allocated.strategy
  unfold locate
  rw [allocated.strategy]
  change (throwing (resolveSlot h data classKey name hint) >>= _) =
    (throwing (resolveSlot h data classKey name noHint) >>= _)
  rw [resolveSlot_of_valid computed valid, resolveSlot_of_valid computed (.inl rfl)]

theorem locate_eq (allocated : Allocated r h object data)
    {action : String} (valid : ValidHint r h object.type classKey name hint)
    {found : ReprData C T × Nat × Nat × Option T}
    (located : locate r h object action classKey name hint = .ok found) :
    found.1 = data ∧ tryGetSlot h data classKey name = .ok (some found.2.1) ∧
      SlotStorage r data found.2.1 found.2.2.1 (attributeSize r found.2.2.2) found.2.2.2 := by
  rw [locate_of_valid allocated action valid] at located
  unfold locate at located
  rw [allocated.strategy] at located
  change (throwing (resolveSlot h data classKey name noHint) >>= _) = _ at located
  rw [resolveSlot_of_valid (computed_of_strategy allocated.strategy) (.inl rfl)] at located
  rcases Except.of_bind located with ⟨slot, looked, rest⟩
  have slotFound := Except.mapError_eq_ok_iff.mp looked
  cases slot with
  | none => cases rest
  | some slot =>
    dsimp only at rest
    split at rest
    · rename_i offset flattened offsets flattenedStables
      cases rest
      exact ⟨rfl, slotFound, offsets, flattenedStables, rfl⟩
    · cases rest

theorem locate_of_slot (allocated : Allocated r h object data) (action : String)
    (valid : ValidHint r h object.type classKey name hint) {slot offset size : Nat}
    (slotFound : tryGetSlot h data classKey name = .ok (some slot))
    (storage : SlotStorage r data slot offset size flattened) :
    locate r h object action classKey name hint = .ok (data, slot, offset, flattened) := by
  rw [locate_of_valid allocated action valid]
  unfold locate
  rw [allocated.strategy]
  change (throwing (resolveSlot h data classKey name noHint) >>= _) = _
  rw [resolveSlot_of_valid (computed_of_strategy allocated.strategy) (.inl rfl), slotFound]
  simp [throwing, Except.mapError, storage.offsets, storage.flattenedStables]

/-- What is read of an attribute whose storage holds the given bytes. -/
def fetched (r : Representations T V W) (autoViv : Option (Option Pmc)) (flattened : Option T)
    (stored : List UInt8) (fresh : Pmc) (world : W) : Fetched T :=
  match flattened with
  | none =>
    let result := UInt64.ofNat (ofBytes stored)
    if result ≠ 0 then .pmc result
    else
      match autoViv with
      | some (some _) => .pmc fresh
      | _ => .pmc r.pmcNull
  | some type => .box type (r.copyTo type world stored (List.replicate (r.size type) 0))

theorem attributeSize_some (r : Representations T V W) (type : T) :
    attributeSize r (some type) = r.size type :=
  Nat.mul_div_cancel _ (by decide)

theorem getAttributeBoxed_snd {slot offset : Nat}
    (located : locate r h object "get" classKey name hint = .ok (data, slot, offset, flattened))
    (fresh : Pmc) (world : W) :
    (getAttributeBoxed r h object classKey name hint fresh world).map Prod.snd =
      .ok (fetched r data.autoVivValues[slot]? flattened
        (readRegion object.body offset (attributeSize r flattened)) fresh world) := by
  unfold getAttributeBoxed
  rw [located]
  cases flattened with
  | none =>
    change Except.map Prod.snd (if getPmcAtOffset object.body offset ≠ 0 then _ else _) =
      .ok (if getPmcAtOffset object.body offset ≠ 0 then _ else _)
    split
    · rfl
    · rcases data.autoVivValues[slot]? with _ | (_ | _) <;> rfl
  | some type =>
    rw [attributeSize_some]
    rfl

theorem getAttributeBoxed_error
    {failure : Failure} (missing : locate r h object "get" classKey name hint = .error failure)
    (fresh : Pmc) (world : W) :
    (getAttributeBoxed r h object classKey name hint fresh world).map Prod.snd =
      .error failure := by
  unfold getAttributeBoxed
  rw [missing]
  rfl

/-- The storage of an attribute was overwritten, and nothing else. -/
structure StoredAt (r : Representations T V W) (h : Hierarchy C T Pmc)
    (object after : Opaque C) (data : ReprData C T) (classKey : C) (name : String)
    (slot offset : Nat) (flattened : Option T) (cells : List UInt8) : Prop where
  slotFound : tryGetSlot h data classKey name = .ok (some slot)
  storage : SlotStorage r data slot offset cells.length flattened
  after_eq : after = { object with body := overwrite object.body offset cells }

namespace StoredAt

variable {flattened : Option T} {cells : List UInt8}

theorem allocated (before : Allocated r h object data)
    (stored : StoredAt r h object after data classKey name slot offset flattened cells) :
    Allocated r h after data := by
  rw [stored.after_eq]
  refine ⟨before.strategy, ?_⟩
  change (overwrite object.body offset cells).length + headerSize = _
  rw [overwrite_length (stored.storage.inside before)]
  exact before.fits

theorem read (before : Allocated r h object data)
    (stored : StoredAt r h object after data classKey name slot offset flattened cells)
    (valid : ValidHint r h object.type classKey name hint) (fresh : Pmc)
    (world : W) : (getAttributeBoxed r h after classKey name hint fresh world).map Prod.snd =
      .ok (fetched r data.autoVivValues[slot]? flattened cells fresh world) := by
  have located := locate_of_slot before "get" valid stored.slotFound stored.storage
  have locatedAfter : locate r h after "get" classKey name hint =
      .ok (data, slot, offset, flattened) := by
    rw [stored.after_eq]
    exact located
  rw [getAttributeBoxed_snd locatedAfter, stored.after_eq, ← stored.storage.size_eq]
  change Except.ok (fetched r data.autoVivValues[slot]? flattened
    (readRegion (overwrite object.body offset cells) offset cells.length) fresh world) = _
  rw [readRegion_overwrite (stored.storage.inside before)]

theorem frame (before : Allocated r h object data)
    (stored : StoredAt r h object after data classKey name slot offset flattened cells)
    {otherKey : C} {otherName : String} (differs : (otherKey, otherName) ≠ (classKey, name))
    (valid : ValidHint r h object.type otherKey otherName hint) (fresh : Pmc)
    (world : W) : (getAttributeBoxed r h after otherKey otherName hint fresh world).map Prod.snd =
      (getAttributeBoxed r h object otherKey otherName hint fresh world).map Prod.snd := by
  have sameLocation : locate r h after "get" otherKey otherName hint =
      locate r h object "get" otherKey otherName hint := by
    rw [stored.after_eq]
    rfl
  cases located : locate r h object "get" otherKey otherName hint with
  | error failure =>
    rw [getAttributeBoxed_error located, getAttributeBoxed_error (sameLocation.trans located)]
  | ok found =>
    rcases locate_eq before valid located with ⟨sameData, slotFound, storage⟩
    rcases found with ⟨foundData, otherSlot, otherOffset, otherFlattened⟩
    rw [getAttributeBoxed_snd located, getAttributeBoxed_snd (sameLocation.trans located)]
    have computed := computed_of_strategy before.strategy
    have slots : slot ≠ otherSlot := by
      rintro rfl
      have owners := slot_injective computed slotFound stored.slotFound
      exact differs (Prod.ext owners.1 owners.2)
    have apart := stored.storage.disjoint computed storage slots
    rw [stored.after_eq]
    change Except.ok (fetched r _ otherFlattened
      (readRegion (overwrite object.body offset cells) otherOffset _) fresh world) = _
    rw [readRegion_overwrite_of_disjoint (stored.storage.inside before) apart.symm]

end StoredAt

end RakudoStar.P6opaque
