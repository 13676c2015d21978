import RakudoStar.BooleanArray.Window

/-!
# Runs of operations on arrays of bits

The arrays of a store answer as lists do and touch no byte outside an allocation, as long as
each operation judges the allocation right and no window grows over bits that are set.
-/

namespace RakudoStar.BooleanArray

open Foundation Foundation.ObjectClass List Option Int

variable {q : Rba} {bits : List Bool} (represents : Represents q bits) {size : Nat}

theorem padTo_of_le (short : size ≤ bits.length) : padTo size bits = bits := by
  rw [padTo, Nat.sub_eq_zero_of_le short]
  exact append_nil bits

theorem resizeList_of_ge (long : bits.length ≤ size) : resizeList bits size = padTo size bits := by
  rw [resizeList, take_of_length_le long]

include represents

theorem Represents.getIntegerKeyedInt (key : Int) : getIntegerKeyedInt q key =
      (indexOf bits key).map fun i => (bits.getD i false).toInt := by
  have bound := represents.size
  rw [BooleanArray.getIntegerKeyedInt, indexOf, represents.elements]
  generalize (if key < 0 then (bits.length : Int) + key else key) = place
  by_cases negative : place < 0
  · rw [if_pos negative, if_pos negative]
    rfl
  rw [if_neg negative, if_neg negative, Except.map]
  by_cases outside : q.size ≤ place.toNat + q.resizeThreshold
  · rw [if_pos outside, getD_eq_getElem?_getD, getElem?_eq_none (by omega)]
    rfl
  · rw [if_neg outside, represents.fixedGet (by omega)]

/-- The state in which an element can be set. -/
def ProperSet (q : Rba) (key : Int) : Prop :=
  let key := if key < 0 then elements q + key else key
  q.size ≤ key.toNat + q.resizeThreshold → ProperResize q (key.toNat + 1)

theorem Represents.setIntegerKeyedInt {key : Int} (proper : ProperSet q key) (value : Int) :
    Alike Represents ((setIntegerKeyedInt q key value).map fun next => (Reply.done, next))
      ((indexOf bits key).map fun i =>
        (Reply.done, (padTo (i + 1) bits).set i (decide (value ≠ 0)))) := by
  have bound := represents.size
  rw [ProperSet, represents.elements] at proper
  rw [BooleanArray.setIntegerKeyedInt, indexOf, represents.elements]
  generalize (if key < 0 then (bits.length : Int) + key else key) = place at proper ⊢
  by_cases negative : place < 0
  · rw [if_pos negative, if_pos negative]
    exact rfl
  rw [if_neg negative, if_neg negative]
  by_cases grows : q.size ≤ place.toNat + q.resizeThreshold
  · have count : place + 1 = ((place.toNat + 1 : Nat) : Int) := by omega
    rcases represents.setIntegerNative (proper grows) with ⟨next, resized, head, nextBits⟩
    rw [resizeList_of_ge (by omega)] at nextBits
    have inside : place.toNat < (padTo (place.toNat + 1) bits).length := by
      rw [padTo, length_append, length_replicate]
      omega
    rcases nextBits.fixedSet inside value with ⟨last, written, lastBits⟩
    rw [if_pos grows, count, resized, ← head]
    change Alike Represents ((fixedSetIntegerKeyedInt next (place.toNat + next.resizeThreshold)
      value).map _) _
    rw [written]
    exact ⟨rfl, lastBits⟩
  rcases represents.fixedSet (show place.toNat < bits.length by omega) value with
    ⟨last, written, lastBits⟩
  rw [if_neg grows, Except.map, padTo_of_le (by omega)]
  change Alike Represents ((fixedSetIntegerKeyedInt q (place.toNat + q.resizeThreshold)
    value).map _) _
  rw [written]
  exact ⟨rfl, lastBits⟩

theorem Represents.pushInteger (proper : ProperResize q (bits.length + 1)) (value : Int) :
    ∃ next, pushInteger q value = .ok next ∧ Represents next (bits ++ [decide (value ≠ 0)]) := by
  rcases represents.setIntegerNative proper with ⟨grown, resized, head, grownBits⟩
  have pushed : resizeList bits (bits.length + 1) = bits ++ [false] := by
    rw [resizeList_of_ge (Nat.le_add_right _ 1), padTo, Nat.add_sub_cancel_left]
    rfl
  rw [pushed] at grownBits
  have length : (bits ++ [false]).length = bits.length + 1 := length_append
  have inside : bits.length < (bits ++ [false]).length := length ▸ Nat.lt_succ_self _
  rcases grownBits.fixedSet inside value with ⟨next, written, nextBits⟩
  have grownSize := grownBits.size
  refine ⟨next, ?_, ?_⟩
  · rw [BooleanArray.pushInteger, represents.elements,
      show (bits.length : Int) + 1 = ((bits.length + 1 : Nat) : Int) from rfl, resized]
    change BooleanArray.setIntegerKeyedInt grown bits.length value = _
    rw [BooleanArray.setIntegerKeyedInt, if_neg (Int.not_lt.mpr (natCast_nonneg _))]
    rw [if_neg (Int.not_lt.mpr (natCast_nonneg _)), toNat_natCast, if_neg (by omega)]
    exact written
  · rwa [set_append_right _ _ le_rfl, Nat.sub_self] at nextBits

theorem Represents.popInteger (proper : ∀ bit rest, bits = rest ++ [bit] →
      ProperResize q rest.length) :
    Alike Represents ((popInteger q).map fun (value, next) => (Reply.value value, next))
      (performOnList bits .pop) := by
  rw [BooleanArray.popInteger, represents.elements, performOnList]
  rcases eq_nil_or_concat bits with rfl | ⟨rest, bit, rfl⟩
  · exact rfl
  rw [concat_eq_append] at represents ⊢
  have length : (rest ++ [bit]).length = rest.length + 1 := length_append
  rcases represents.setIntegerNative (proper bit rest (concat_eq_append)) with
    ⟨next, resized, -, nextBits⟩
  have popped : resizeList (rest ++ [bit]) rest.length = rest := by
    rw [resizeList, take_left, padTo_of_le le_rfl]
  have last : ((rest ++ [bit]).length : Int) - 1 = (rest.length : Int) := by omega
  have found : BooleanArray.getIntegerKeyedInt q rest.length = .ok bit.toInt := by
    rw [represents.getIntegerKeyedInt, indexOf, if_neg (Int.not_lt.mpr (natCast_nonneg _)),
      if_neg (Int.not_lt.mpr (natCast_nonneg _)), toNat_natCast, Except.map,
      getD_eq_getElem?_getD, getElem?_append_right le_rfl, Nat.sub_self]
    rfl
  rw [if_neg (by omega), getLast?_concat, dropLast_concat]
  dsimp only
  rw [last, found, resized]
  rw [popped] at nextBits
  exact ⟨rfl, nextBits⟩

theorem Represents.unshiftInteger
    (proper : q.resizeThreshold = 0 → roundBytes q.size ≤ (q.bitArray.getD []).length)
    (value : Int) :
    ∃ next, unshiftInteger q value = .ok next ∧ Represents next (decide (value ≠ 0) :: bits) := by
  have settled : ∀ {room : Rba}, Represents room bits → 0 < room.resizeThreshold →
      ∃ next, BooleanArray.setIntegerKeyedInt
        { room with resizeThreshold := room.resizeThreshold - 1 } 0 value = .ok next ∧
        Represents next (decide (value ≠ 0) :: bits) := by
    intro room roomBits positive
    have bound := roomBits.size
    rcases (roomBits.front positive).fixedSet (Nat.succ_pos _) value with ⟨next, written, nextBits⟩
    refine ⟨next, ?_, nextBits⟩
    rw [BooleanArray.setIntegerKeyedInt, if_neg (Int.lt_irrefl 0)]
    dsimp only
    rw [if_neg (Int.lt_irrefl 0), if_neg (by omega)]
    exact written
  have bound := represents.size
  rw [BooleanArray.unshiftInteger]
  by_cases atFront : q.resizeThreshold = 0
  · have room := roundBytes_add q.size
    have bytes : bitsToBytes minAlloc = 8 := rfl
    rcases @memmove_cleared (roundBytes (q.size + minAlloc)) (bitsToBytes minAlloc) 0
      (roundBytes q.size) q.bitArray (by rw [bytes, room]; omega)
      (by omega) with
      ⟨newBitArray, moved, length, bit⟩
    have within := lt_roundBytes q.size
    have moves : Represents ⟨q.size + minAlloc, q.resizeThreshold + minAlloc, some newBitArray⟩
        bits := by
      refine ⟨?_, ?_, fun i inside => ?_⟩
      · dsimp only
        omega
      · rw [getD_some, length]
        exact le_of_lt (lt_roundBytes _)
      dsimp only
      rw [getD_some, bit, bytes, if_pos (by unfold minAlloc; omega), ← represents.bit i inside]
      congr 1
      unfold minAlloc
      omega
    rw [if_pos atFront]
    dsimp only
    rw [moved]
    exact settled moves (lt_of_lt_of_le (by decide) (Nat.le_add_left _ _))
  · rw [if_neg atFront]
    exact settled represents (Nat.pos_of_ne_zero atFront)

theorem Represents.shiftInteger (proper : minAlloc ≤ q.resizeThreshold + 1 → bits ≠ [] →
      roundBytes q.size ≤ (q.bitArray.getD []).length) :
    Alike Represents ((shiftInteger q).map fun (value, next) => (Reply.value value, next))
      (performOnList bits .shift) := by
  rw [BooleanArray.shiftInteger, represents.elements, performOnList.eq_def]
  cases bits with
  | nil => exact rfl
  | cons bit rest =>
    have bound := represents.size
    rw [length_cons] at bound
    have behind := represents.behind
    have first : BooleanArray.getIntegerKeyedInt q 0 = .ok bit.toInt :=
      represents.getIntegerKeyedInt 0
    rw [if_neg (by rw [length_cons]; omega), first]
    change Alike Represents (Except.map _ (if minAlloc ≤ q.resizeThreshold + 1 then _ else _)) _
    by_cases compacts : minAlloc ≤ q.resizeThreshold + 1
    · have large := proper compacts (cons_ne_nil bit rest)
      have sizes := roundBytes_add (q.size - minAlloc)
      rw [Nat.sub_add_cancel (by omega)] at sizes
      have bytes : bitsToBytes minAlloc = 8 := rfl
      rcases @memmove_cleared (roundBytes (q.size - minAlloc)) 0 (bitsToBytes minAlloc)
        (roundBytes (q.size - minAlloc)) q.bitArray (by omega) (by omega) with
        ⟨newBitArray, moved, length, bit⟩
      have within := lt_roundBytes (q.size - minAlloc)
      rw [if_pos compacts]
      rw [moved]
      refine ⟨rfl, ?_, ?_, fun i inside => ?_⟩
      · dsimp only
        omega
      · rw [getD_some, length]
        exact le_of_lt within
      dsimp only
      rw [getD_some, bit, bytes, if_pos (by omega), ← behind.bit i inside]
      congr 1
      have whole : 64 ≤ q.resizeThreshold + 1 := compacts
      change 8 * 8 + (q.resizeThreshold + 1 - 64 + i - 8 * 0) = q.resizeThreshold + 1 + i
      omega
    · rw [if_neg compacts]
      exact ⟨rfl, behind⟩

theorem Represents.fill (value : Int) : ∃ next, fill q value = .ok next ∧
      Represents next (replicate bits.length (decide (value ≠ 0))) := by
  have bound := represents.size
  have allocated := represents.allocated
  have sizeInBytes : getSizeInBytes q.size = (q.size + 7) / 8 := rfl
  rw [BooleanArray.fill]
  by_cases empty : getSizeInBytes q.size = 0
  · have none : bits = [] := length_eq_zero_iff.mp (by omega)
    subst none
    exact ⟨q, if_pos empty, represents⟩
  rw [if_neg empty, if_pos (by omega)]
  refine ⟨_, rfl, ?_, ?_, fun i inside => ?_⟩
  · rw [length_replicate]
    exact bound
  · rw [getD_some, overwrite_length (by rw [length_replicate]; omega)]
    exact allocated
  rw [length_replicate] at inside
  rw [getD_some, bitAt_overwrite (by rw [length_replicate]; omega),
    length_replicate, if_pos (by dsimp only; omega), bitAt_replicate,
    if_pos (by dsimp only; omega), getD_eq_getElem?_getD,
    getElem?_replicate_of_lt inside, getD_some]
  have small : (q.resizeThreshold + i - 8 * 0) % 8 < 8 := Nat.mod_lt _ (by decide)
  by_cases zero : value = 0
  · rw [if_neg (not_not.mpr zero), decide_eq_false (not_not.mpr zero)]
    exact BitVec.getLsbD_zero
  rw [if_pos zero, decide_eq_true zero]
  change (BitVec.allOnes 8).getLsbD _ = true
  rw [BitVec.getLsbD_allOnes]
  exact decide_eq_true small

/-- The state in which a clone has all the bits. -/
def ProperClone (q : Rba) : Prop :=
  q.bitArray ≠ none → q.size / bitsPerChar + 1 ≤ (q.bitArray.getD []).length

theorem Represents.clone (proper : ProperClone q) :
    ∃ copy, clone q = .ok copy ∧ Represents copy bits := by
  have bound := represents.size
  cases stored : q.bitArray with
  | none => exact ⟨q, by rw [BooleanArray.clone, stored], represents⟩
  | some myBitArray =>
    have large := proper (stored ▸ some_ne_none myBitArray)
    rw [stored] at large
    have byte : q.size / bitsPerChar = q.size / 8 := rfl
    rcases @memmove_cleared (q.size / bitsPerChar + 1) 0 0 (q.size / bitsPerChar + 1)
      (some myBitArray) (by omega) (by omega) with ⟨copy, moved, length, bit⟩
    refine ⟨{ q with bitArray := some copy }, ?_, bound, ?_, fun i inside => ?_⟩
    · rw [BooleanArray.clone, stored]
      dsimp only
      rw [moved]
      rfl
    · rw [getD_some, length]
      dsimp only
      omega
    dsimp only
    rw [getD_some, bit, if_pos (by omega), ← represents.bit i inside, stored]
    congr 1
    omega

omit represents

/-- The state in which a request gives what it gives on the list. -/
def ProperRequest (q : Rba) : Request → Prop
  | .get _ | .fill _ | .elements => True
  | .set key _ => ProperSet q key
  | .setIntegerNative size => 0 ≤ size → ProperResize q size.toNat
  | .push _ => ProperResize q (q.size - q.resizeThreshold + 1)
  | .pop => q.resizeThreshold < q.size → ProperResize q (q.size - q.resizeThreshold - 1)
  | .unshift _ => q.resizeThreshold = 0 → roundBytes q.size ≤ (q.bitArray.getD []).length
  | .shift => minAlloc ≤ q.resizeThreshold + 1 → q.resizeThreshold < q.size →
      roundBytes q.size ≤ (q.bitArray.getD []).length

theorem perform_alike (represents : Represents q bits) {asked : Request}
    (proper : ProperRequest q asked) :
    Alike Represents (perform q asked) (performOnList bits asked) := by
  have bound := represents.size
  have count : q.size - q.resizeThreshold = bits.length := by omega
  cases asked with
  | get key =>
    rw [perform, represents.getIntegerKeyedInt, performOnList]
    cases indexOf bits key with
    | error failure => exact rfl
    | ok i => exact ⟨rfl, represents⟩
  | set key value => exact represents.setIntegerKeyedInt proper value
  | setIntegerNative size =>
    rw [perform, performOnList]
    by_cases negative : size < 0
    · rw [if_pos negative, BooleanArray.setIntegerNative]
      rw [if_neg (by omega), if_pos negative]
      exact rfl
    rcases eq_ofNat_of_zero_le (Int.not_lt.mp negative) with ⟨size, rfl⟩
    have resizes : ProperResize q size := proper (natCast_nonneg size)
    rcases represents.setIntegerNative resizes with ⟨next, resized, -, nextBits⟩
    rw [if_neg negative, resized, toNat_natCast]
    exact ⟨rfl, nextBits⟩
  | push value =>
    have grows : ProperResize q (bits.length + 1) := count ▸ proper
    rcases represents.pushInteger grows value with ⟨next, pushed, nextBits⟩
    rw [perform, pushed]
    exact ⟨rfl, nextBits⟩
  | pop =>
    apply represents.popInteger
    rintro bit rest rfl
    rw [length_append, length_singleton] at bound count
    have shrinks := proper (by omega)
    rwa [count, Nat.add_sub_cancel] at shrinks
  | unshift value =>
    rcases represents.unshiftInteger proper value with ⟨next, unshifted, nextBits⟩
    rw [perform, unshifted]
    exact ⟨rfl, nextBits⟩
  | shift =>
    apply represents.shiftInteger
    intro compacts some
    have positive := length_pos_iff.mpr some
    exact proper compacts (by omega)
  | fill value =>
    rcases represents.fill value with ⟨next, filled, nextBits⟩
    rw [perform, filled]
    exact ⟨rfl, nextBits⟩
  | elements =>
    rw [perform, performOnList, represents.elements]
    exact ⟨rfl, represents⟩

theorem refines_bitList :
    resizableBooleanArray.Refines bitList Represents ProperClone ProperRequest where
  new := ⟨rfl, Nat.zero_le _, fun i inside => absurd inside (Nat.not_lt_zero i)⟩
  clone {q bits} represents proper := by
    rcases represents.clone proper with ⟨copy, copied, copyBits⟩
    change AlikeCopy Represents (BooleanArray.clone q) (.ok bits)
    rw [copied]
    exact copyBits
  perform represents proper := perform_alike represents proper

theorem performOnList_inside (bits : List Bool) (asked : Request) :
    performOnList bits asked ≠ .error .outside := by
  have keyed : ∀ (key : Int) (result : Nat → Reply × List Bool),
      (indexOf bits key).map result ≠ .error .outside := by
    intro key result
    unfold indexOf
    dsimp only
    generalize (if key < 0 then (bits.length : Int) + key else key) = place
    split <;> simp [Except.map]
  cases asked with
  | get key => exact keyed key _
  | set key value => exact keyed key _
  | setIntegerNative size => rw [performOnList]; split <;> simp
  | push value => simp [performOnList]
  | pop => rw [performOnList]; split <;> simp
  | unshift value => simp [performOnList]
  | shift => rw [performOnList.eq_def]; cases bits <;> simp
  | fill value | elements => simp [performOnList]

theorem bitList_step_inside (lists : List (List Bool)) (command : Command Request) :
    (bitList.step lists command).1 ≠ .failed .outside := by
  cases command with
  | new => simp [ObjectClass.step]
  | clone i =>
    rw [ObjectClass.step]
    cases lists[i]? <;> simp [bitList]
  | request i asked =>
    rw [ObjectClass.step]
    cases lists[i]? with
    | none => simp
    | some bits =>
      have inside := performOnList_inside bits asked
      dsimp only [bitList]
      cases performed : performOnList bits asked with
      | error failure =>
        rw [performed] at inside
        intro same
        exact inside (congrArg Except.error (Answer.failed.inj same))
      | ok outcome => simp

theorem bitList_inside (commands : List (Command Request)) (lists : List (List Bool)) :
    ∀ answer ∈ (bitList.run lists commands).1, answer ≠ .failed .outside := by
  induction commands generalizing lists with
  | nil => exact fun answer member => absurd member not_mem_nil
  | cons command commands ih =>
    intro answer member
    rcases mem_cons.mp member with rfl | later
    · exact bitList_step_inside lists command
    · exact ih _ answer later

/-- A run answers as the lists do, inside its allocations. -/
structure LikeLists (commands : List (Command Request)) : Prop where
  answers : (resizableBooleanArray.run [] commands).1 = (bitList.run [] commands).1
  inside : ∀ answer ∈ (resizableBooleanArray.run [] commands).1, answer ≠ .failed .outside
  arrays : List.Forall₂ Represents (resizableBooleanArray.run [] commands).2
    (bitList.run [] commands).2

theorem rba_runs_like_lists {commands : List (Command Request)}
    (proper : resizableBooleanArray.ProperRun ProperClone ProperRequest [] commands) :
    LikeLists commands := by
  rcases refines_bitList.run List.Forall₂.nil proper with ⟨answers, arrays⟩
  refine ⟨answers, ?_, arrays⟩
  rw [answers]
  exact bitList_inside commands []

/-- An array that grows at both ends. -/
theorem rba_runs_like_lists_grown :
    LikeLists [.new, .request 0 (.push 1), .request 0 (.unshift 1), .request 0 (.shift)] := by
  apply rba_runs_like_lists
  refine ⟨trivial, ?_, ?_, ?_, trivial⟩
  · rintro q found
    cases found
    exact ⟨fun pos _ _ _ => bitAt_outside (Nat.zero_le pos), fun none => absurd rfl none,
      fun none => absurd rfl none⟩
  · rintro q found -
    cases found
    decide
  · rintro q found - -
    cases found
    decide

/-- A popped element is seen again when the array grows. -/
theorem popped_bit_visible :
    ¬ LikeLists [.new, .request 0 (.push 1), .request 0 .pop, .request 0 (.setIntegerNative 1),
      .request 0 (.get 0)] := by
  rintro ⟨answers, -, -⟩
  exact absurd answers (by decide)

end RakudoStar.BooleanArray
