import RakudoStar.Arrays.ResizableSplice

/-!
# Runs of operations on resizable arrays

The arrays of a store answer as lists do, as long as no array grows over slots that hold a
removed element, what is assigned has as many elements as the threshold says, what is deleted is
there, and an array spliced into itself repeats itself from the offset on.
-/

namespace RakudoStar.Arrays.Resizable

open Foundation RakudoStar.Except List Option Int

variable {α : Type} {q : Rpa α}

theorem append_agrees (wellFormed : q.WellFormed) {values : List (Option α)}
    {data : Rpa α → Except Failure (List (Option α))}
    (gives : ∀ r : Rpa α, r.WellFormed → q.size ≤ r.size → r.toList.take q.size.toNat = q.toList →
      data r = .ok values) : Agrees (.ok (.done, q.toList ++ values))
      (append q values.length data >>= fun q => .ok (.done, q)) := by
  have length := length_toList_cast wellFormed
  have nonneg := wellFormed.nonneg
  rw [append]
  by_cases none : (values.length : Int) = 0
  · have empty : values = [] := eq_nil_of_length_eq_zero (ofNat_eq_zero.mp none)
    rw [if_pos none, empty, append_nil]
    exact ⟨wellFormed, rfl⟩
  obtain ⟨grown, ran, resized⟩ := setIntegerNative_ok wellFormed (q.toList.length + values.length)
  have cast : ((q.toList.length + values.length : Nat) : Int) = q.size + values.length := by omega
  have grownSize := resized.size
  have old := resized.take_old wellFormed (by omega)
  have room := resized.wellFormed.room
  rw [cast] at ran
  have given := gives grown resized.wellFormed (by omega) old
  rw [if_neg none, ran, ok_bind, given, ok_bind, if_pos ⟨nonneg, by omega⟩]
  have changed : Changed grown (overwrite grown.slots q.size.toNat values)
      { grown with pmcArray := some (overwrite grown.slots q.size.toNat values) } :=
    ⟨rfl, rfl, rfl⟩
  refine ⟨changed.wellFormed resized.wellFormed (overwrite_length (by omega)), ?_⟩
  have whole : q.size.toNat + values.length = grown.size.toNat := by omega
  have written := @take_overwrite _ grown.slots values q.size.toNat (by omega)
  have front : grown.slots.take q.size.toNat = q.toList := by
    rw [← old, toList_eq_take, take_take, min_eq_left (by omega)]
  rw [whole, front] at written
  rw [toList_eq_take]
  exact congrArg (fun elements => Except.ok (Reply.done, elements)) written.symm

theorem setPmc_agrees (values : List (Option α)) (fits : values.length = q.threshold) :
    (setPmc q values).WellFormed ∧ (setPmc q values).toList = values := by
  refine ⟨⟨natCast_nonneg _, ?_, ?_⟩, ?_⟩
  · exact ofNat_le.mpr (le_of_eq fits)
  · exact le_of_eq fits.symm
  · rw [toList_eq_take]
    exact take_of_length_le le_rfl

theorem clone_ok (wellFormed : q.WellFormed) :
    ∃ copy, clone q = .ok copy ∧ copy.WellFormed ∧ copy.toList = q.toList := by
  have room := wellFormed.room
  have nonneg := wellFormed.nonneg
  rw [clone]
  by_cases empty : q.size = 0
  · refine ⟨.new, if_pos empty, ⟨Int.le_refl 0, Int.le_refl 0, Nat.le_refl 0⟩, ?_⟩
    rw [toList_empty wellFormed empty]
    rfl
  rw [if_neg empty, if_pos ⟨nonneg, by omega⟩]
  have length : (q.slots.take q.size.toNat).length = q.size.toNat := length_take_of_le room
  refine ⟨_, rfl, ⟨nonneg, ?_, ?_⟩, ?_⟩
  · exact Int.le_of_eq wellFormed.size_eq.symm
  · exact Nat.le_of_eq length.symm
  · rw [toList_eq_take, toList_eq_take]
    exact take_of_length_le (le_of_eq length)

theorem elementsFrom_eq (wellFormed : q.WellFormed) (left : Nat) {i : Nat}
    (whole : i + left = q.toList.length) : elementsFrom q left i = .ok (q.toList.drop i) := by
  induction left generalizing i with
  | zero =>
    rw [elementsFrom, drop_of_length_le (by omega)]
  | succ left ih =>
    have inside : i < q.toList.length := by omega
    rw [elementsFrom, getPmcKeyedInt_eq wellFormed, getElement, if_neg (by omega),
      if_neg (by omega), toNat_natCast, ok_bind, ih (by omega), ok_bind,
      drop_eq_getElem_cons inside, getD_eq_getElem?_getD, getElem?_eq_getElem inside]
    rfl

theorem elementsOf_eq (wellFormed : q.WellFormed) : elementsOf q = .ok q.toList := by
  rw [elementsOf, if_neg (Int.not_lt.mpr wellFormed.nonneg),
    elementsFrom_eq wellFormed _ ((Nat.zero_add _).trans (length_toList wellFormed).symm)]
  rfl

/-- The size of what is assigned or spliced in. -/
def sourceSize (arrays : List (Rpa α)) : Source α → Int
  | .list values => values.length
  | .array i => (arrays[i]?.map Rpa.size).getD 0

/-- The state in which a request meets the list. -/
def Request.Sound (arrays : List (Rpa α)) (own : Nat) (q : Rpa α) : Request α → Prop
  | .set key _ => q.ExposesNull key.toNat
  | .resize size => q.ExposesNull size.toNat
  | .assign source => source = .array own ∨ sourceSize arrays source = q.threshold
  | .delete key => 0 ≤ key ∧ key < q.size
  | .splice source place count =>
    let offset := if place < 0 then place + q.size else place
    0 ≤ offset → 0 ≤ count ∧ q.ExposesNull offset.toNat ∧
      (source = .array own → Repeats q.toList offset.toNat)
  | _ => True

def Operation.Sound (arrays : List (Rpa α)) : Operation α → Prop
  | .request i asked => ∀ q, arrays[i]? = some q → asked.Sound arrays i q
  | _ => True

/-- Every operation of a run is in such a state. -/
def RunSound (arrays : List (Rpa α)) : List (Operation α) → Prop
  | [] => True
  | operation :: operations =>
    operation.Sound arrays ∧ RunSound (step arrays operation).2 operations

def WellFormedStore (arrays : List (Rpa α)) : Prop := ∀ q ∈ arrays, q.WellFormed

section

variable {arrays : List (Rpa α)} (wellFormed : WellFormedStore arrays) {own : Nat}
  {source : Source α}

include wellFormed

theorem assign_agrees (isWellFormed : q.WellFormed) (found : arrays[own]? = some q)
    (sound : source = .array own ∨ sourceSize arrays source = q.threshold) :
    Agrees (performOnList (arrays.map Rpa.toList) q.toList (.assign source))
      (perform arrays own q (.assign source)) := by
  cases source with
  | list values =>
    have fits : values.length = q.threshold := by
      rcases sound with other | fits
      · cases other
      · exact Int.ofNat.inj fits
    obtain ⟨resultWellFormed, cells⟩ := @setPmc_agrees α q values fits
    exact ⟨resultWellFormed, congrArg (fun list => Except.ok (Reply.done, list)) cells.symm⟩
  | array i =>
    rw [performOnList, perform, Source.elements, sourceElements, getElem?_map]
    cases other : arrays[i]? with
    | none => rfl
    | some r =>
      by_cases same : i = own
      · subst same
        cases some.inj (found.symm.trans other)
        dsimp only [map_some]
        rw [if_pos rfl]
        exact ⟨isWellFormed, rfl⟩
      have rWellFormed := wellFormed r (mem_of_getElem? other)
      have fits : r.toList.length = q.threshold := by
        rcases sound with impossible | fits
        · exact absurd (Source.array.inj impossible) same
        rw [sourceSize, other] at fits
        have size : r.size = q.threshold := fits
        rw [← length_toList_cast rWellFormed] at size
        exact Int.ofNat.inj size
      dsimp only [map_some]
      rw [if_neg same, elementsOf_eq rWellFormed]
      obtain ⟨resultWellFormed, cells⟩ := @setPmc_agrees α q r.toList fits
      exact ⟨resultWellFormed, congrArg (fun list => Except.ok (Reply.done, list)) cells.symm⟩

theorem sourceIterator_agrees (other : source ≠ .array own) :
    (∃ failure, sourceIterator arrays own source = .error failure ∧
      source.elements (arrays.map Rpa.toList) = .error failure) ∨
    ∃ elements shiftPmc, sourceIterator arrays own source = .ok (elements.length, shiftPmc) ∧
      source.elements (arrays.map Rpa.toList) = .ok elements ∧
      ∀ (r : Rpa α) {i : Nat} (_ : i < elements.length), shiftPmc r i = .ok elements[i] := by
  cases source with
  | list values => exact .inr ⟨values, _, rfl, rfl, fun _ _ inside => load_ok inside⟩
  | array i =>
    have apart : i ≠ own := fun same => other (congrArg _ same)
    rw [sourceIterator, Source.elements, getElem?_map]
    cases found : arrays[i]? with
    | none => exact .inl ⟨.noSuchArray, rfl, rfl⟩
    | some r =>
      have isWellFormed := wellFormed r (mem_of_getElem? found)
      refine .inr ⟨r.toList, fun _ pos => getPmcKeyedInt r pos, ?_, rfl, ?_⟩
      · rw [length_toList_cast isWellFormed]
        exact if_neg apart
      intro _ pos inside
      dsimp only
      rw [getPmcKeyedInt_eq isWellFormed, getElement,
        if_neg (Int.not_lt.mpr (natCast_nonneg pos)),
        if_neg (Int.not_lt.mpr (natCast_nonneg pos)), toNat_natCast,
        getD_eq_getElem?_getD, getElem?_eq_getElem inside]
      rfl

theorem splice_agrees (isWellFormed : q.WellFormed) (found : arrays[own]? = some q)
    {place count : Int} (sound : Request.Sound arrays own q (.splice source place count)) :
    Agrees (performOnList (arrays.map Rpa.toList) q.toList (.splice source place count))
      (perform arrays own q (.splice source place count)) := by
  by_cases same : source = .array own
  · subst same
    rw [performOnList, perform, Source.elements, sourceIterator, getElem?_map, found]
    dsimp only [map_some]
    rw [if_pos rfl]
    exact splice_self_agrees isWellFormed fun nonneg =>
      ⟨(sound nonneg).1, (sound nonneg).2.1, (sound nonneg).2.2 rfl⟩
  rcases sourceIterator_agrees wellFormed same with
    ⟨failure, failed, failedOnList⟩ | ⟨elements, shiftPmc, ran, ranOnList, iterates⟩
  · rw [performOnList, perform, failed, failedOnList]
    exact rfl
  rw [performOnList, perform, ran, ranOnList]
  exact splice_list_agrees isWellFormed iterates fun nonneg =>
    ⟨(sound nonneg).1, (sound nonneg).2.1⟩

theorem append_source_agrees (isWellFormed : q.WellFormed)
    (found : arrays[own]? = some q) (source : Source α) :
    Agrees (performOnList (arrays.map Rpa.toList) q.toList (.append source))
      (perform arrays own q (.append source)) := by
  cases source with
  | list values => exact append_agrees isWellFormed fun _ _ _ _ => rfl
  | array i =>
    rw [performOnList, perform, Source.elements, sourceData, getElem?_map]
    cases other : arrays[i]? with
    | none => exact rfl
    | some r =>
      have rWellFormed := wellFormed r (mem_of_getElem? other)
      have nonneg := rWellFormed.nonneg
      have room := rWellFormed.room
      dsimp only [map_some]
      by_cases same : i = own
      · subst same
        cases some.inj (found.symm.trans other)
        rw [if_pos rfl]
        have appended := @append_agrees α q isWellFormed q.toList (firstSlots q.size) (by
          intro r rWellFormed larger old
          have within := rWellFormed.room
          rw [firstSlots, if_pos ⟨nonneg, by omega⟩, ← old, toList_eq_take, take_take,
            min_eq_left (by omega)])
        rw [length_toList_cast isWellFormed] at appended
        exact appended
      rw [if_neg same]
      have appended := @append_agrees α q isWellFormed r.toList
        (fun _ => firstSlots r.size r) (by
          intro _ _ _ _
          rw [firstSlots, if_pos ⟨nonneg, by omega⟩, toList_eq_take])
      rw [length_toList_cast rWellFormed] at appended
      exact appended

theorem perform_agrees (isWellFormed : q.WellFormed) (found : arrays[own]? = some q)
    {request : Request α} (sound : request.Sound arrays own q) :
    Agrees (performOnList (arrays.map Rpa.toList) q.toList request)
      (perform arrays own q request) := by
  cases request with
  | push value => exact push_agrees isWellFormed value
  | pop => exact pop_agrees _ isWellFormed
  | shift => exact shift_agrees _ isWellFormed
  | unshift value => exact unshift_agrees isWellFormed value
  | set key value => exact setElement_agrees isWellFormed key value sound
  | resize size => exact resizeElements_agrees isWellFormed size sound
  | assign source => exact assign_agrees wellFormed isWellFormed found sound
  | delete key => exact delete_agrees isWellFormed sound.1 sound.2
  | splice source place count => exact splice_agrees wellFormed isWellFormed found sound
  | append source => exact append_source_agrees wellFormed isWellFormed found source
  | get key =>
    rw [performOnList, perform, getPmcKeyedInt_eq isWellFormed]
    cases getElement q.toList key with
    | error failure => exact rfl
    | ok value => exact ⟨isWellFormed, rfl⟩
  | elements => exact ⟨isWellFormed, by rw [performOnList, length_toList_cast isWellFormed]⟩

/-- One operation returns what it returns on the lists. -/
theorem step_agrees {operation : Operation α} (sound : operation.Sound arrays) :
    WellFormedStore (step arrays operation).2 ∧ stepOnLists (arrays.map Rpa.toList) operation =
        ((step arrays operation).1, (step arrays operation).2.map Rpa.toList) := by
  have added : ∀ {q : Rpa α}, q.WellFormed → WellFormedStore (arrays ++ [q]) :=
    fun isWellFormed => forall_mem_append.mpr ⟨wellFormed, forall_mem_singleton.mpr isWellFormed⟩
  cases operation with
  | new =>
    refine ⟨added ⟨Int.le_refl 0, Int.le_refl 0, Nat.le_refl 0⟩, ?_⟩
    rw [stepOnLists, step, map_append, length_map]
    rfl
  | clone i =>
    rw [stepOnLists, step, getElem?_map]
    cases found : arrays[i]? with
    | none => exact ⟨wellFormed, rfl⟩
    | some q =>
      obtain ⟨copy, ran, isWellFormed, cells⟩ := clone_ok (wellFormed q (mem_of_getElem? found))
      dsimp only [map_some]
      rw [ran]
      refine ⟨added isWellFormed, ?_⟩
      rw [map_append, length_map, map_singleton, cells]
  | request i asked =>
    rw [stepOnLists, step, getElem?_map]
    cases found : arrays[i]? with
    | none => exact ⟨wellFormed, rfl⟩
    | some q =>
      have agrees := perform_agrees wellFormed (wellFormed q (mem_of_getElem? found)) found
        (sound q found)
      dsimp only [map_some]
      cases ran : perform arrays i q asked with
      | error failure =>
        rw [ran] at agrees
        have failed : performOnList _ q.toList asked = .error failure := agrees
        rw [failed]
        exact ⟨wellFormed, rfl⟩
      | ok outcome =>
        rw [ran] at agrees
        obtain ⟨isWellFormed, replied⟩ := agrees
        rw [replied]
        refine ⟨?_, by rw [map_set]⟩
        intro other mem
        rcases mem_or_eq_of_mem_set mem with old | rfl
        · exact wellFormed other old
        · exact isWellFormed

theorem run_agrees {operations : List (Operation α)} (sound : RunSound arrays operations) :
    WellFormedStore (run arrays operations).2 ∧ runOnLists (arrays.map Rpa.toList) operations =
        ((run arrays operations).1, (run arrays operations).2.map Rpa.toList) := by
  induction operations generalizing arrays with
  | nil => exact ⟨wellFormed, rfl⟩
  | cons operation operations ih =>
    obtain ⟨first, rest⟩ := sound
    obtain ⟨nextWellFormed, stepped⟩ := step_agrees wellFormed first
    obtain ⟨lastWellFormed, ran⟩ := ih nextWellFormed rest
    refine ⟨lastWellFormed, ?_⟩
    rw [runOnLists, stepped]
    dsimp only
    rw [ran]
    rfl

end

/-- The arrays of a run that begins with none of them are lists, and no array is larger than its
threshold or has a threshold above its slots. -/
theorem resizable_arrays_are_lists {operations : List (Operation α)}
    (sound : RunSound [] operations) :
    (∀ q ∈ (run [] operations).2, 0 ≤ q.size ∧ q.size ≤ q.threshold ∧
      q.threshold ≤ q.slots.length) ∧ runOnLists [] operations =
      ((run [] operations).1, (run [] operations).2.map Rpa.toList) := by
  obtain ⟨wellFormed, ran⟩ := run_agrees (fun _ impossible => absurd impossible not_mem_nil) sound
  exact ⟨fun q member => ⟨(wellFormed q member).nonneg, (wellFormed q member).size_le,
    (wellFormed q member).threshold_le⟩, ran⟩

/-- An array that is appended to itself and loses its first element. -/
theorem resizable_arrays_are_lists_appended :
    runOnLists [] [.new, .request 0 (.push (some 7)), .request 0 (.append (.array 0)),
        .request 0 (.delete 0)] =
      ([.ok (.array 0), .ok .done, .ok .done, .ok .done], [[some 7]]) := by
  have sound : RunSound [] [.new, .request 0 (.push (some 7)), .request 0 (.append (.array 0)),
      .request 0 (.delete 0)] := by
    refine ⟨trivial, fun _ _ => trivial, fun _ _ => trivial, ?_, trivial⟩
    intro q found
    cases found
    exact ⟨Int.le_refl 0, by decide⟩
  exact (resizable_arrays_are_lists sound).2

/-- A popped element is seen again when the array grows. -/
theorem popped_element_returns :
    ¬runOnLists [] [.new, .request 0 (.push (some 7)), .request 0 .pop, .request 0 (.resize 1)] =
      ((run [] [.new, .request 0 (.push (some 7)), .request 0 .pop, .request 0 (.resize 1)]).1,
        (run [] [.new, .request 0 (.push (some 7)), .request 0 .pop,
          .request 0 (.resize 1)]).2.map Rpa.toList) := by
  intro same
  have seen : (run [] [.new, .request 0 (.push (some 7)), .request 0 .pop,
      .request 0 (.resize 1)]).2.map Rpa.toList = [[some 7]] := rfl
  rw [seen] at same
  cases same

end RakudoStar.Arrays.Resizable
