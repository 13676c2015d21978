import RakudoStar.Strings.Spelling

/-!
# Strings on shared buffers

A heap is sound when its windows obey the discipline of shared buffers and every header stands
for a well-formed string. A call that adds a header by a step of that discipline keeps it sound
and all older strings.
-/

namespace RakudoStar.Strings

open Foundation List

namespace StringHeap

/-- The headers that were there changed nothing but their flags. -/
structure Grows (heap heap' : StringHeap) : Prop where
  steps : Relation.ReflTransGen SharedBuffers.Step heap.shared heap'.shared
  headers : ∀ (i : Nat) (s : StringHeader), heap.strings[i]? = some s →
    ∃ flags, heap'.strings[i]? = some { s with flags }

theorem Grows.refl (heap : StringHeap) : Grows heap heap :=
  ⟨Relation.ReflTransGen.refl, fun _ s found => ⟨s.flags, found⟩⟩

theorem Grows.trans {heap middle heap' : StringHeap} (first : Grows heap middle)
    (second : Grows middle heap') : Grows heap heap' := by
  constructor
  · exact first.steps.trans second.steps
  intro i s found
  obtain ⟨flags, there⟩ := first.headers i s found
  exact second.headers i { s with flags } there

variable {s : StringHeader} {heap heap' : StringHeap} {i : Nat}

theorem getElem?_shared
    (found : heap.strings[i]? = some s) : heap.shared.windows[i]? = some s.window := by
  rw [shared, getElem?_map, found]
  rfl

theorem Grows.view (grows : Grows heap heap')
    (disciplined : heap.shared.Disciplined) (found : heap.strings[i]? = some s) :
    ∃ t, heap'.strings[i]? = some t ∧ heap'.view t = heap.view s := by
  obtain ⟨flags, there⟩ := grows.headers i s found
  obtain ⟨v, window, _, shown⟩ :=
    (SharedBuffers.steps_keep grows.steps disciplined).2 i s.window (getElem?_shared found)
  rw [getElem?_shared there] at window
  cases window
  refine ⟨_, there, ?_⟩
  rw [StringHeap.view, StringHeap.view, shown]

/-- A heap that has grown by one header keeps the others where they are. -/
theorem Grows.append (grows : Grows heap heap')
    (disciplined : heap.shared.Disciplined) {new : StringHeader}
    (strings : heap'.strings = heap.strings ++ [new]) (found : heap.strings[i]? = some s) :
    heap'.strings[i]? = some s ∧ heap'.view s = heap.view s := by
  have before := (List.getElem?_eq_some_iff.mp found).1
  have header : heap'.strings[i]? = some s := by
    rw [strings, getElem?_append_left before, found]
  obtain ⟨t, there, same⟩ := grows.view disciplined found
  cases header.symm.trans there
  exact ⟨header, same⟩

section

variable (order : ByteOrder) (seed : UInt64)

/-- String number `i` holds these code points. -/
def Reads (heap : StringHeap) (i : Nat) (cs : List Nat) : Prop :=
  ∃ s, heap.strings[i]? = some s ∧ Spells order seed (heap.view s) cs

/-- Windows in discipline, well-formed strings, and number 0 empty. -/
structure Sound (heap : StringHeap) : Prop where
  disciplined : heap.shared.Disciplined
  spelled : ∀ (i : Nat) (s : StringHeader), heap.strings[i]? = some s →
    ∃ cs, Spells order seed (heap.view s) cs
  empty : Reads order seed heap 0 []

/-- A call throws, or extends the heap soundly by a string of this kind. -/
def Yields (heap : StringHeap) (result : Except Fault (StringHeap × Nat))
    (kind : ParrotString → Prop) : Prop :=
  Throws result ∨ ∃ heap' i t, result = .ok (heap', i) ∧ Sound order seed heap' ∧
    Grows heap heap' ∧ heap'.strings[i]? = some t ∧ kind (heap'.view t)

end

section

variable {order : ByteOrder} {seed : UInt64} {heap heap' : StringHeap} {i : Nat} {cs : List Nat}
  {kind : ParrotString → Prop} (strings : List StringHeader) (t : StringHeader)

theorem Reads.grows (reads : Reads order seed heap i cs) (disciplined : heap.shared.Disciplined)
    (grows : Grows heap heap') : Reads order seed heap' i cs := by
  obtain ⟨s, found, spells⟩ := reads
  obtain ⟨t, there, same⟩ := grows.view disciplined found
  refine ⟨t, there, ?_⟩
  rw [same]
  exact spells

theorem yields_of_step (sound : Sound order seed heap) {t : StringHeader}
    (step : SharedBuffers.Step heap.shared heap'.shared)
    (headers : ∀ (i : Nat) (s : StringHeader), heap.strings[i]? = some s →
      ∃ flags, heap'.strings[i]? = some { s with flags })
    (count : heap'.strings.length = heap.strings.length + 1)
    (new : heap'.strings[heap.strings.length]? = some t)
    (spells : Spells order seed (heap'.view t) cs) (shows : kind (heap'.view t)) :
    Yields order seed heap (.ok (heap', heap.strings.length)) kind := by
  have grows : Grows heap heap' := ⟨Relation.ReflTransGen.single step, headers⟩
  refine .inr ⟨heap', heap.strings.length, t, rfl, ?_, grows, new, shows⟩
  constructor
  · exact step.disciplined sound.disciplined
  · intro i s found
    by_cases old : i < heap.strings.length
    · have before := getElem?_eq_getElem old
      obtain ⟨cs, spelled⟩ := sound.spelled i _ before
      obtain ⟨u, there, same⟩ := grows.view sound.disciplined before
      rw [found] at there
      cases there
      rw [same]
      exact ⟨cs, spelled⟩
    have last : i = heap.strings.length := by
      have inside := (List.getElem?_eq_some_iff.mp found).1
      omega
    subst last
    rw [new] at found
    cases found
    exact ⟨cs, spells⟩
  · exact sound.empty.grows sound.disciplined grows

theorem headers_newHeader (i : Nat) (s : StringHeader) (found : strings[i]? = some s) :
    ∃ flags, (strings ++ [t])[i]? = some { s with flags } := by
  have inside := (List.getElem?_eq_some_iff.mp found).1
  exact ⟨s.flags, (getElem?_append_left inside).trans found⟩

theorem getElem?_newHeader : (strings ++ [t])[strings.length]? = some t := by
  rw [getElem?_append_right le_rfl, Nat.sub_self]
  rfl

/-- A header that may not grow, over a part of what another one shows. -/
theorem yields_share (sound : Sound order seed heap) {t : StringHeader}
    (found : heap.strings[i]? = some s) (same : t.bufstart = s.bufstart)
    (inside : t.strstart + t.bufused ≤ s.strstart + s.bufused)
    (closed : t.flags.isGrowable = false) (spells : Spells order seed (heap.view t) cs)
    (shows : kind (heap.view t)) : Yields order seed heap (.ok (newHeader heap t)) kind := by
  have step : SharedBuffers.Step heap.shared (newHeader heap t).1.shared := by
    have windows : (newHeader heap t).1.shared =
        ⟨heap.shared.buffers, heap.shared.windows ++ [t.window]⟩ := by
      rw [shared, newHeader, map_append]
      rfl
    rw [windows]
    exact SharedBuffers.Step.share (mem_of_getElem? (getElem?_shared found)) same inside closed
  exact yields_of_step sound step (headers_newHeader heap.strings t) length_append
    (getElem?_newHeader heap.strings t) spells shows

theorem yields_fresh (sound : Sound order seed heap) {memory : List UInt8} {t : StringHeader}
    {kind : ParrotString → Prop} (own : t.bufstart = heap.buffers.length)
    (inside : t.strstart + t.bufused ≤ memory.length) (spells : Spells order seed
      ⟨t.encoding, (memory.drop t.strstart).take t.bufused, t.strlen, t.hashval⟩ cs)
    (shows : kind ⟨t.encoding, (memory.drop t.strstart).take t.bufused, t.strlen, t.hashval⟩) :
    Yields order seed heap
      (.ok (newHeader { heap with buffers := heap.buffers ++ [memory] } t)) kind := by
  have windows : (newHeader { heap with buffers := heap.buffers ++ [memory] } t).1.shared =
      ⟨heap.shared.buffers ++ [memory], heap.shared.windows ++ [t.window]⟩ := by
    rw [shared, newHeader, map_append]
    rfl
  have step : SharedBuffers.Step heap.shared
      (newHeader { heap with buffers := heap.buffers ++ [memory] } t).1.shared := by
    rw [windows]
    exact SharedBuffers.Step.fresh own inside
  have view : (newHeader { heap with buffers := heap.buffers ++ [memory] } t).1.view t =
      ⟨t.encoding, (memory.drop t.strstart).take t.bufused, t.strlen, t.hashval⟩ := by
    have here : t.window.buffer = heap.shared.buffers.length := own
    rw [StringHeap.view, windows, SharedBuffers.view, here, SharedBuffers.bufferAt_new]
    rfl
  rw [← view] at spells shows
  exact yields_of_step sound step (headers_newHeader heap.strings t) length_append
    (getElem?_newHeader heap.strings t) spells shows

theorem writeAt_eq {memory word : List UInt8} {position : Nat}
    (room : position + word.length ≤ memory.length) :
    writeAt memory position word = .ok (overwrite memory position word) := by
  rw [writeAt, if_pos room, overwrite]

theorem allocate_length (allocator : Allocator) (heap : StringHeap) (size : Nat) :
    size ≤ (allocate allocator heap size).length := by
  rw [allocate]
  split
  · rename_i none
    exact le_of_eq none
  · exact allocator.enough _ _

theorem yields_newString (sound : Sound order seed heap) (allocator : Allocator)
    (flags : StringFlags) {size : Nat} {str : ParrotString} {kind : ParrotString → Prop}
    (enough : str.bytes.length ≤ size) (spells : Spells order seed str cs) (shows : kind str) :
    Yields order seed heap (newString allocator heap flags size str) kind := by
  have room : 0 + str.bytes.length ≤ (allocate allocator heap size).length := by
    rw [zero_add]
    exact le_trans enough (allocate_length allocator heap size)
  have written : (overwrite (allocate allocator heap size) 0 str.bytes).take str.bytes.length =
      str.bytes := by
    rw [overwrite, take_zero, nil_append, take_left]
  rw [newString, writeAt_eq room, Except.ok_bind]
  apply yields_fresh sound rfl
  · rw [overwrite_length room]
    exact room
  · rw [drop_zero, written]
    exact spells
  · rw [drop_zero, written]
    exact shows

theorem yields_growInPlace (sound : Sound order seed heap) {dest : StringHeader}
    {cells : List UInt8} (found : heap.strings[i]? = some s) (growable : s.flags.isGrowable = true)
    (room : s.strstart + s.bufused + cells.length ≤ (heap.bufferAt s.bufstart).length)
    (longer : dest.window = s.window.extend cells.length) (spells : Spells order seed
      ⟨dest.encoding, (heap.view s).bytes ++ cells, dest.strlen, dest.hashval⟩ cs)
    (shows : kind ⟨dest.encoding, (heap.view s).bytes ++ cells, dest.strlen, dest.hashval⟩) :
    Yields order seed heap (.ok (growInPlace heap i s dest
      (overwrite (heap.bufferAt s.bufstart) (s.strstart + s.bufused) cells))) kind := by
  have inside : i < heap.strings.length := (List.getElem?_eq_some_iff.mp found).1
  have allocated : s.window.buffer < heap.shared.buffers.length :=
    sound.disciplined.allocated s.window (mem_of_getElem? (getElem?_shared found))
  generalize grown : overwrite (heap.bufferAt s.bufstart) (s.strstart + s.bufused) cells = memory
  have closed : (copyOf s).window = s.window.close := by
    rw [StringHeader.window, copyOf, StringFlags.isGrowable, Bool.or_true]
    rfl
  have windows : (growInPlace heap i s dest memory).1.shared =
      ⟨heap.shared.buffers.set s.window.buffer
          (overwrite (heap.shared.bufferAt s.window.buffer) s.window.stop cells),
        heap.shared.windows.set i s.window.close ++ [s.window.extend cells.length]⟩ := by
    rw [shared, growInPlace, newHeader, map_append, map_set, closed, ← grown, ← longer]
    rfl
  have view : (growInPlace heap i s dest memory).1.view dest =
      ⟨dest.encoding, (heap.view s).bytes ++ cells, dest.strlen, dest.hashval⟩ := by
    have extended := overwrite_window room
    rw [StringHeap.view, windows, SharedBuffers.view, longer, BufferWindow.extend_buffer,
      SharedBuffers.bufferAt_set allocated]
    exact congrArg (ParrotString.mk dest.encoding · dest.strlen dest.hashval) extended
  have step : SharedBuffers.Step heap.shared (growInPlace heap i s dest memory).1.shared := by
    rw [windows]
    exact SharedBuffers.Step.extend (getElem?_shared found) growable room
  have length : (heap.strings.set i (copyOf s)).length = heap.strings.length := length_set
  have headers : ∀ (k : Nat) (u : StringHeader), heap.strings[k]? = some u →
      ∃ flags, (growInPlace heap i s dest memory).1.strings[k]? = some { u with flags } := by
    intro k u there
    by_cases same : i = k
    · subst same
      rw [found] at there
      cases there
      exact headers_newHeader _ dest i (copyOf s) (getElem?_set_self inside)
    have unchanged : (heap.strings.set i (copyOf s))[k]? = some u :=
      (getElem?_set_ne same).trans there
    exact headers_newHeader _ dest k u unchanged
  have new := getElem?_newHeader (heap.strings.set i (copyOf s)) dest
  have count : (growInPlace heap i s dest memory).1.strings.length = heap.strings.length + 1 := by
    rw [growInPlace, newHeader, length_append, length]
    rfl
  rw [length] at new
  rw [← view] at spells shows
  have yields := yields_of_step sound step headers count new spells shows
  rw [← length] at yields
  exact yields

end

end StringHeap

end RakudoStar.Strings
