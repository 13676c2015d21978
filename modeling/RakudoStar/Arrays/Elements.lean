import RakudoStar.Arrays.Resizing

/-!
# The operations on single elements

Each operation does to the elements what it does to a list, if a window that grows over several
slots shows null there.
-/

namespace RakudoStar.Arrays

open Foundation RakudoStar.Except List Nat Int

variable {α : Type} {q : Qrpa α} {i : Nat} (arrays : List (List (Option α)))

/-- The slots up to an element are null, where the window is extended. -/
def Qrpa.ExposesNull (q : Qrpa α) (last size : Nat) : Prop :=
  q.start + size ≤ q.ssize → ∀ i, q.elems ≤ i → i < last → q.slots[q.start + i]? = some none

/-- The code does what the list does. -/
def Agrees (elements : Except Failure (Reply α × List (Option α))) :
    Except Failure (Reply α × Qrpa α) → Prop
  | .ok (reply, q) => q.WellFormed ∧ elements = .ok (reply, q.toList)
  | .error failure => elements = .error failure

theorem getElem?_toList (inside : i < q.elems) : q.toList[i]? = q.slots[q.start + i]? := by
  rw [Qrpa.toList, readRegion, getElem?_take_of_lt inside, getElem?_drop]

theorem load_toList (wellFormed : q.WellFormed) (inside : i < q.elems) :
    load q.slots (q.start + i) = .ok (q.toList.getD i none) := by
  have below : q.start + i < q.slots.length :=
    Nat.lt_of_lt_of_le (Nat.add_lt_add_left inside _) wellFormed
  rw [load_ok below, getD_eq_getElem?_getD, getElem?_toList inside, getElem?_eq_getElem below]
  rfl

theorem overwrite_singleton {elements : List (Option α)} (inside : i < elements.length)
    (value : Option α) : overwrite elements i [value] = elements.set i value := by
  rw [overwrite, set_eq_take_append_cons_drop, if_pos inside, append_assoc]
  rfl

theorem store_toList (wellFormed : q.WellFormed) (inside : i < q.elems) (value : Option α) :
    ∃ slots, store q.slots (q.start + i) value = .ok slots ∧ slots.length = q.ssize ∧
      readRegion slots q.start q.elems = q.toList.set i value := by
  have below : q.start + i < q.slots.length :=
    Nat.lt_of_lt_of_le (Nat.add_lt_add_left inside _) wellFormed
  refine ⟨_, store_ok below value, length_set, ?_⟩
  rw [← overwrite_singleton below, readRegion_overwrite_window wellFormed inside,
    ← overwrite_singleton (by rw [length_toList wellFormed]; exact inside)]
  rfl

theorem getPmcKeyedInt_eq (wellFormed : q.WellFormed) (pos : Int) :
    getPmcKeyedInt q pos = getElement q.toList pos := by
  have length := length_toList wellFormed
  rw [getPmcKeyedInt, getElement, length]
  by_cases negative : pos < 0
  · rw [if_pos negative, if_pos negative]
    by_cases before : pos + q.elems < 0
    · rw [if_pos before, if_pos before]
    rw [if_neg before, if_neg before, load_toList wellFormed]
    have nonnegative : 0 ≤ pos + q.elems := Int.not_lt.mp before
    exact (toNat_lt nonnegative).mpr (by omega)
  rw [if_neg negative, if_neg negative, if_neg negative]
  have nonnegative : 0 ≤ pos := Int.not_lt.mp negative
  by_cases behind : (q.elems : Int) ≤ pos
  · rw [if_pos behind, getD_eq_getElem?_getD, getElem?_eq_none]
    · rfl
    · rw [length]
      exact le_toNat nonnegative |>.mpr behind
  · rw [if_neg behind, load_toList wellFormed]
    exact (toNat_lt nonnegative).mpr (Int.not_le.mp behind)

theorem Fresh.take_eq {n last : Nat} {fresh : List (Option α)} (isFresh : Fresh q n fresh)
    (exposes : q.ExposesNull last n) (below : last ≤ n) :
    fresh.take (last - q.elems) = List.replicate (last - q.elems) none := by
  have short : last - q.elems ≤ n - q.elems := Nat.sub_le_sub_right below _
  cases isFresh with
  | cleared => rw [take_replicate, min_eq_left short]
  | exposed room =>
    refine ext_getElem? fun i => ?_
    by_cases inside : i < last - q.elems
    · have bounded : q.elems + i < last := add_comm q.elems i ▸ add_lt_of_lt_sub inside
      rw [take_readRegion _ _ short, readRegion, getElem?_take_of_lt inside,
        getElem?_drop, getElem?_replicate_of_lt inside, add_assoc]
      exact exposes room _ (Nat.le_add_right _ _) bounded
    rw [getElem?_eq_none, getElem?_eq_none]
    · rw [length_replicate]
      exact not_lt.mp inside
    · exact le_trans (length_take_le _ _) (not_lt.mp inside)

theorem set_append_last {elements fresh : List (Option α)} {more : Nat}
    (length : fresh.length = more + 1) (value : Option α) :
    (elements ++ fresh).set (elements.length + more) value =
      elements ++ fresh.take more ++ [value] := by
  rw [set_append_right _ _ (Nat.le_add_right _ _), Nat.add_sub_cancel_left,
    set_eq_take_append_cons_drop, if_pos (length ▸ lt_succ_self more), ← length,
    drop_length, append_assoc]

theorem resizeElements_agrees (wellFormed : q.WellFormed) (n : Int)
    (exposes : q.ExposesNull n.toNat n.toNat) :
    Agrees (resizeElements q.toList n >>= fun elements => .ok (.done, elements))
      (setIntegerNative q n >>= fun q => .ok (.done, q)) := by
  rw [resizeElements]
  by_cases negative : n < 0
  · rw [if_pos negative, setIntegerNative, if_pos negative]
    rfl
  obtain ⟨size, rfl⟩ := eq_ofNat_of_zero_le (Int.not_lt.mp negative)
  obtain ⟨result, ran, resized⟩ := setIntegerNative_resized wellFormed size
  obtain ⟨fresh, isFresh, toList⟩ := resized.toList
  rw [if_neg negative, ran]
  refine ⟨resized.wellFormed, ?_⟩
  have isNull := isFresh.take_eq exposes (le_refl _)
  rw [toNat_natCast, take_of_length_le (le_of_eq (isFresh.length wellFormed))] at isNull
  have missing : size - min size q.elems = size - q.elems := by omega
  rw [ok_bind, toList, isNull, padTo, length_take, length_toList wellFormed, toNat_natCast, missing]

theorem store_last {result : Qrpa α} {pos : Nat} (resized : Resized q (pos + 1) result)
    (wellFormed : q.WellFormed) (behind : q.elems ≤ pos) (value : Option α) :
    ∃ fresh slots, Fresh q (pos + 1) fresh ∧
      store result.slots (result.start + pos) value = .ok slots ∧
      Qrpa.WellFormed { result with slots } ∧ Qrpa.toList { result with slots } =
        q.toList ++ fresh.take (pos - q.elems) ++ [value] := by
  have length := length_toList wellFormed
  obtain ⟨fresh, isFresh, toList⟩ := resized.toList
  have inside : pos < result.elems := by
    rw [resized.elems]
    exact lt_succ_self pos
  obtain ⟨slots, stored, size, cells⟩ := store_toList resized.wellFormed inside value
  refine ⟨fresh, slots, isFresh, stored, ?_, cells.trans ?_⟩
  · rw [Qrpa.WellFormed, Qrpa.ssize, size]
    exact resized.wellFormed
  have freshLength : fresh.length = pos - q.elems + 1 := by
    rw [isFresh.length wellFormed, Nat.sub_add_comm behind]
  have place : q.toList.length + (pos - q.elems) = pos := by
    rw [length, Nat.add_sub_cancel' behind]
  have whole := @set_append_last _ q.toList fresh _ freshLength value
  rw [place] at whole
  rw [toList, take_of_length_le (by rw [length]; exact le_succ_of_le behind), whole]

theorem setElement_agrees (wellFormed : q.WellFormed) (pos : Int) (value : Option α)
    (exposes : q.ExposesNull pos.toNat (pos.toNat + 1)) :
    Agrees (setElement q.toList pos value >>= fun elements => .ok (.done, elements))
      (setPmcKeyedInt q pos value >>= fun q => .ok (.done, q)) := by
  have length := length_toList wellFormed
  -- an element that is there
  have stored : ∀ {i : Nat}, i < q.elems → ∃ slots, store q.slots (q.start + i) value = .ok slots ∧
      Qrpa.WellFormed { q with slots } ∧ Qrpa.toList { q with slots } =
        (padTo (i + 1) q.toList).set i value := by
    intro i inside
    obtain ⟨slots, ran, size, cells⟩ := store_toList wellFormed inside value
    refine ⟨slots, ran, ?_, cells.trans ?_⟩
    · rw [Qrpa.WellFormed, Qrpa.ssize, size]
      exact wellFormed
    · rw [padTo, length, Nat.sub_eq_zero_of_le inside, replicate_zero, append_nil]
  rw [setPmcKeyedInt, setElement, length]
  by_cases negative : pos < 0
  · rw [if_pos negative, if_pos negative]
    by_cases before : pos + q.elems < 0
    · rw [if_pos before, if_pos before]
      rfl
    have inside : (pos + q.elems).toNat < q.elems := by
      rw [toNat_lt (Int.not_lt.mp before)]
      omega
    obtain ⟨slots, ran, isWellFormed, cells⟩ := stored inside
    rw [if_neg before, if_neg before, ran]
    exact ⟨isWellFormed, by rw [cells]; rfl⟩
  obtain ⟨i, rfl⟩ := eq_ofNat_of_zero_le (Int.not_lt.mp negative)
  rw [if_neg negative, if_neg negative, if_neg negative, toNat_natCast]
  by_cases behind : q.elems ≤ i
  · obtain ⟨result, grown, resized⟩ := setIntegerNative_resized wellFormed (i + 1)
    obtain ⟨fresh, slots, isFresh, ran, isWellFormed, cells⟩ :=
      store_last resized wellFormed behind value
    rw [if_pos (Int.ofNat_le.mpr behind)]
    have grown' : setIntegerNative q ((i : Int) + 1) = .ok result := grown
    rw [grown', ok_bind, ok_bind]
    dsimp only
    rw [ran]
    refine ⟨isWellFormed, ?_⟩
    have isNull := isFresh.take_eq exposes (le_succ _)
    rw [toNat_natCast] at isNull
    have padded := @set_append_last _ q.toList (replicate (i - q.elems + 1) none)
      (i - q.elems) length_replicate value
    rw [length, Nat.add_sub_cancel' behind, take_replicate, Nat.min_eq_left (le_succ _)] at padded
    rw [cells, isNull, padTo, length, Nat.sub_add_comm behind, padded]
  · obtain ⟨slots, ran, isWellFormed, cells⟩ := stored (Nat.not_le.mp behind)
    rw [if_neg fun le => behind (Int.ofNat_le.mp le), ok_bind, ok_bind]
    dsimp only
    rw [ran]
    exact ⟨isWellFormed, by rw [cells]⟩

section

variable (wellFormed : q.WellFormed)

include wellFormed

theorem push_agrees (value : Option α) :
    Agrees (.ok (.done, q.toList ++ [value])) (pushPmc q value >>= fun q => .ok (.done, q)) := by
  obtain ⟨result, grown, resized⟩ := setIntegerNative_resized wellFormed (q.elems + 1)
  obtain ⟨fresh, slots, _, ran, isWellFormed, cells⟩ := store_last resized wellFormed le_rfl value
  have grown' : setIntegerNative q ((q.elems : Int) + 1) = .ok result := grown
  have last : result.start + result.elems - 1 = result.start + q.elems := by
    rw [resized.elems]
    rfl
  rw [pushPmc, grown', ok_bind, last, ran]
  rw [Nat.sub_self, take_zero, append_nil] at cells
  exact ⟨isWellFormed, by rw [cells]⟩

theorem pop_agrees : Agrees (performOnList arrays q.toList .pop)
      (popPmc q >>= fun result => .ok (.value result.1, result.2)) := by
  have length := length_toList wellFormed
  rw [popPmc]
  by_cases empty : q.elems < 1
  · have nil : q.toList = [] := eq_nil_of_length_eq_zero (length.trans (lt_one_iff.mp empty))
    rw [if_pos empty, nil]
    rfl
  have some : 0 < q.elems := not_lt.mp empty
  have last : q.elems - 1 < q.elems := sub_one_lt_of_lt some
  rw [if_neg empty, load_toList wellFormed last]
  refine ⟨Nat.le_trans (Nat.add_le_add_left (sub_le _ _) _) wellFormed, ?_⟩
  have value : q.toList.getLast? = .some (q.toList.getD (q.elems - 1) none) := by
    rw [getLast?_eq_getElem?, length, getD_eq_getElem?_getD,
      getElem?_eq_getElem (by rw [length]; exact last)]
    rfl
  have others : q.toList.dropLast = Qrpa.toList { q with elems := q.elems - 1 } := by
    rw [dropLast_eq_take, length, Qrpa.toList, take_readRegion _ _ (sub_le _ _)]
    rfl
  rw [performOnList, value, others]

theorem shift_agrees : Agrees (performOnList arrays q.toList .shift)
      (shiftPmc q >>= fun result => .ok (.value result.1, result.2)) := by
  have length := length_toList wellFormed
  rw [shiftPmc]
  by_cases empty : q.elems < 1
  · have nil : q.toList = [] := eq_nil_of_length_eq_zero (length.trans (lt_one_iff.mp empty))
    rw [if_pos empty, nil]
    rfl
  have some : 0 < q.elems := not_lt.mp empty
  obtain ⟨value, others, cons⟩ := exists_cons_of_length_pos (length ▸ some)
  have first := load_toList wellFormed some
  rw [add_zero, cons, getD_cons_zero] at first
  have rest : others = Qrpa.toList { q with start := q.start + 1, elems := q.elems - 1 } := by
    have dropped : q.toList.drop 1 = others := by
      rw [cons]
      rfl
    rw [← dropped, Qrpa.toList, drop_readRegion]
    rfl
  rw [if_neg empty, first, cons]
  refine ⟨?_, by rw [performOnList, rest]⟩
  rw [Qrpa.WellFormed, add_assoc, Nat.add_sub_cancel' some]
  exact wellFormed

theorem makeRoom_eq (start : q.start = 0) :
    ∃ result, makeRoom q = .ok result ∧ result.WellFormed ∧ result.start = 8 ∧
      result.toList = q.toList := by
  obtain ⟨grown, ran, resized⟩ := setIntegerNative_resized wellFormed (q.elems + 8)
  obtain ⟨fresh, _, toList⟩ := resized.toList
  have length := length_toList wellFormed
  have room : q.elems + 8 ≤ grown.slots.length := by
    have inside := resized.wellFormed
    rw [Qrpa.WellFormed, resized.start start, resized.elems, zero_add] at inside
    exact inside
  have cells : readRegion grown.slots 0 q.elems = q.toList := by
    have whole : q.toList.take (q.elems + 8) = q.toList :=
      take_of_length_le (le_trans (le_of_eq length) (Nat.le_add_right _ _))
    have kept : grown.toList.take q.elems = q.toList := by
      rw [toList, whole, ← length, take_left]
    rw [Qrpa.toList, resized.start start, resized.elems,
      take_readRegion _ _ (Nat.le_add_right q.elems 8)] at kept
    exact kept
  have moved : memmove grown.slots 8 0 q.elems = .ok (overwrite grown.slots 8 q.toList) := by
    rw [← cells]
    exact @memmove_ok _ _ 8 0 q.elems (by rw [add_comm]; exact room)
      (by rw [zero_add]; exact le_of_add_right_le room)
  have movedRoom : 8 + q.toList.length ≤ grown.slots.length := by
    rw [length, add_comm]
    exact room
  have movedSize := overwrite_length movedRoom
  have freed : 0 + (replicate 8 (none : Option α)).length ≤
      (overwrite grown.slots 8 q.toList).length := by
    rw [movedSize]
    exact le_trans (Nat.le_add_left _ _) room
  refine ⟨⟨q.elems, 8, overwrite (overwrite grown.slots 8 q.toList) 0 (replicate 8 none)⟩,
    ?_, ?_, rfl, ?_⟩
  · have ran' : setIntegerNative q ((q.elems : Int) + 8) = .ok grown := ran
    rw [makeRoom, ran', ok_bind, moved, ok_bind]
  · rw [Qrpa.WellFormed, Qrpa.ssize, overwrite_length freed, movedSize, add_comm]
    exact room
  · have written := readRegion_overwrite movedRoom
    rw [length] at written
    exact (readRegion_overwrite_of_disjoint freed (.inr (le_refl 8))).trans written

theorem unshift_agrees (value : Option α) : Agrees (.ok (.done, value :: q.toList))
      (unshiftPmc q value >>= fun q => .ok (.done, q)) := by
  have placed : ∀ {r : Qrpa α}, r.WellFormed → 0 < r.start → r.toList = q.toList →
      Agrees (.ok (.done, value :: q.toList))
        ((store r.slots (r.start - 1) value >>= fun slots =>
          .ok ⟨r.elems + 1, r.start - 1, slots⟩) >>= fun q => .ok (.done, q)) := by
    intro r isWellFormed some same
    have inside : r.start - 1 < r.slots.length :=
      lt_of_lt_of_le (sub_one_lt_of_lt some) (le_of_add_right_le isWellFormed)
    have next : r.start - 1 + 1 = r.start := Nat.sub_add_cancel some
    rw [store_ok inside]
    have size : r.start - 1 + (r.elems + 1) = r.start + r.elems := by
      rw [← succ_add_eq_add_succ, succ_eq_add_one, next]
    refine ⟨?_, ?_⟩
    · rw [Qrpa.WellFormed, Qrpa.ssize, length_set, size]
      exact isWellFormed
    have shown := readRegion_add (r.slots.set (r.start - 1) value) (r.start - 1) 1 r.elems
    have behind : readRegion (r.slots.set (r.start - 1) value) r.start r.elems = r.toList := by
      rw [readRegion, drop_set_of_lt (sub_one_lt_of_lt some)]
      rfl
    have first : readRegion (r.slots.set (r.start - 1) value) (r.start - 1) 1 = [value] := by
      rw [← overwrite_singleton inside]
      exact readRegion_overwrite inside
    rw [first, next, behind, add_comm 1] at shown
    rw [← same]
    exact congrArg (fun elements => Except.ok (Reply.done, elements)) shown.symm
  rw [unshiftPmc]
  by_cases free : q.start < 1
  · obtain ⟨result, ran, isWellFormed, start, toList⟩ := makeRoom_eq wellFormed (lt_one_iff.mp free)
    rw [if_pos free, ran]
    exact placed isWellFormed (by rw [start]; exact zero_lt_succ 7) toList
  · rw [if_neg free]
    exact placed wellFormed (not_lt.mp free) rfl

end

theorem clone_toList (q : Qrpa α) (wellFormed : q.WellFormed) :
    (clone q).WellFormed ∧ (clone q).toList = q.toList := by
  have length := length_toList wellFormed
  rw [clone]
  by_cases some : 0 < q.elems
  · rw [if_pos some]
    refine ⟨?_, ?_⟩
    · rw [Qrpa.WellFormed, Qrpa.ssize, length_readRegion wellFormed, zero_add]
    · rw [Qrpa.toList, readRegion_readRegion _ (le_of_eq (zero_add _)), add_zero]
      rfl
  rw [if_neg some]
  have nil : q.toList = [] :=
    eq_nil_of_length_eq_zero (length.trans (Nat.eq_zero_of_not_pos some))
  exact ⟨le_rfl, nil.symm⟩

end RakudoStar.Arrays
