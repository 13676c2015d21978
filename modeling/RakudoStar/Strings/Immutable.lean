import RakudoStar.Strings.Calls

/-!
# Strings are immutable although buffers are shared

Whatever calls are made and whatever the allocator returns, each string goes on showing its code
points: at most one header on a buffer may grow, and it ends last.
-/

namespace RakudoStar.Strings

open Foundation StringHeap List

section

variable (order : ByteOrder) (estimate : Nat → Nat) (allocator : Allocator)

/-- Operands exist, lengths are within memory, and iterators in order. -/
def StringOperation.Admissible (heap : StringHeap) (op : StringOperation) : Prop :=
  (∀ i ∈ op.operands, i < heap.strings.length) ∧
    match op with
    | .newFromBuffer memory len => len ≤ memory.length
    | .iterSubstr str l r => ∀ s, heap.strings[str]? = some s → IsIterator order (heap.view s) l ∧
          ∀ iter ∈ r, IsIterator order (heap.view s) iter ∧ l.charpos ≤ iter.charpos
    | _ => True

/-- Sequences of calls that return. A call that throws leaves no string behind. -/
inductive StringRuns (start : StringHeap) : StringHeap → Prop
  | refl : StringRuns start start
  | call {heap heap' : StringHeap} {op : StringOperation} {result : Option Nat}
      (before : StringRuns start heap) (admissible : op.Admissible order heap)
      (returned : op.run order estimate allocator heap = .ok (heap', result)) :
      StringRuns start heap'

end

section

variable {order : ByteOrder} {seed : UInt64} {estimate : Nat → Nat} {allocator : Allocator}
  {heap : StringHeap} {op : StringOperation} {heap' : StringHeap}

theorem sound_initial : Sound order seed initial where
  disciplined := by
    constructor
    · intro w member
      rw [mem_singleton.mp member]
      exact Nat.one_pos
    · intro w member
      rw [mem_singleton.mp member]
      exact Nat.le_refl 0
    intro i j w v foundI foundJ differ _ _
    have first := (List.getElem?_eq_some_iff.mp foundI).1
    have second := (List.getElem?_eq_some_iff.mp foundJ).1
    change i < 1 at first
    change j < 1 at second
    omega
  spelled := by
    intro i s found
    have first := (List.getElem?_eq_some_iff.mp found).1
    change i < 1 at first
    have zero : i = 0 := by omega
    subst zero
    cases found
    exact ⟨[], emptyString_spells⟩
  empty := ⟨emptyHeader, rfl, emptyString_spells⟩

theorem StringHeap.Sound.reads (sound : Sound order seed heap)
    {i : Nat} (inside : i < heap.strings.length) :
    ∃ cs, Reads order seed heap i cs := by
  obtain ⟨cs, spells⟩ := sound.spelled i _ (getElem?_eq_getElem inside)
  exact ⟨cs, _, getElem?_eq_getElem inside, spells⟩

/-- A call throws, or leaves a sound heap that has grown, and returns a string of it. -/
def Continues (order : ByteOrder) (seed : UInt64) (heap : StringHeap)
    (result : Except Fault (StringHeap × Option Nat)) : Prop :=
  Throws result ∨ ∃ heap' str, result = .ok (heap', str) ∧ Sound order seed heap' ∧
    Grows heap heap' ∧ ∀ i ∈ str, i < heap'.strings.length

theorem StringHeap.Yields.continues {result : Except Fault (StringHeap × Nat)}
    {kind : ParrotString → Prop}
    (yields : Yields order seed heap result kind) :
    Continues order seed heap (StringOperation.notNull result) := by
  rcases yields with ⟨type, message, failed⟩ | ⟨heap', i, t, run, sound, grows, found, _⟩
  · rw [failed]
    exact .inl ⟨type, message, rfl⟩
  rw [run]
  refine .inr ⟨heap', some i, rfl, sound, grows, ?_⟩
  intro k member
  cases member
  exact (List.getElem?_eq_some_iff.mp found).1

theorem run_continues (sound : Sound order seed heap) (admissible : op.Admissible order heap) :
    Continues order seed heap (op.run order estimate allocator heap) := by
  obtain ⟨operands, promised⟩ := admissible
  have reads : ∀ i ∈ op.operands, ∃ cs, Reads order seed heap i cs :=
    fun i member => sound.reads (operands i member)
  have null : Continues order seed heap (.ok (heap, none)) :=
    .inr ⟨heap, none, rfl, sound, Grows.refl heap, nofun⟩
  cases op with
  | newInit buffer encoding flags => exact (strNewInit_yields sound buffer encoding flags).continues
  | newNoinit capacity => exact (strNewNoinit_yields sound capacity).continues
  | newFromBuffer memory len => exact (strNewFromBuffer_yields sound promised).continues
  | copy s =>
    cases s with
    | none => exact null
    | some s =>
      obtain ⟨cs, t, found, spells⟩ := reads s mem_cons_self
      exact (strCopy_yields sound found spells).continues
  | clone s =>
    cases s with
    | none => exact null
    | some s =>
      obtain ⟨cs, t, found, spells⟩ := reads s mem_cons_self
      exact (strClone_yields sound found spells).continues
  | concat a b =>
    cases a with
    | none =>
      cases b with
      | none => exact null
      | some b =>
        obtain ⟨cs, t, found, spells⟩ := reads b mem_cons_self
        exact (concatNull_yields sound found spells).continues
    | some a =>
      obtain ⟨cs, readsLeft⟩ := reads a mem_cons_self
      cases b with
      | none =>
        obtain ⟨t, found, spells⟩ := readsLeft
        exact (concatNull_yields sound found spells).continues
      | some b =>
        obtain ⟨ds, readsRight⟩ := reads b (mem_cons_of_mem a mem_cons_self)
        exact (concatStrings_yields sound readsLeft readsRight).continues
  | substr src offset length =>
    cases src with
    | none => exact .inl ⟨_, _, rfl⟩
    | some src =>
      obtain ⟨cs, t, found, spells⟩ := reads src mem_cons_self
      exact (strSubstr_yields sound found spells offset length).continues
  | iterSubstr str l r =>
    obtain ⟨cs, t, found, spells⟩ := reads str mem_cons_self
    obtain ⟨left, right⟩ := promised t found
    exact (strIterSubstr_yields sound found spells left right).continues
  | replace src offset length rep =>
    cases src with
    | none => exact .inl ⟨_, _, rfl⟩
    | some src =>
      obtain ⟨cs, readsSrc⟩ := reads src mem_cons_self
      cases rep with
      | none =>
        have offers : Offers order seed heap none [] := rfl
        exact (strReplace_yields sound readsSrc offers offset length).continues
      | some rep =>
        obtain ⟨ds, readsRep⟩ := reads rep (mem_cons_of_mem src mem_cons_self)
        have offers : Offers order seed heap (some rep) ds := readsRep
        exact (strReplace_yields sound readsSrc offers offset length).continues
  | changeEncoding src encoding =>
    cases src with
    | none => exact null
    | some src =>
      obtain ⟨cs, t, found, spells⟩ := reads src mem_cons_self
      exact (strChangeEncoding_yields sound found spells encoding).continues

theorem grows_of_returned (sound : Sound order seed heap)
    (admissible : op.Admissible order heap) {result : Option Nat}
    (returned : op.run order estimate allocator heap = .ok (heap', result)) :
    Sound order seed heap' ∧ Grows heap heap' := by
  rcases run_continues sound admissible with
    ⟨type, message, failed⟩ | ⟨later, str, run, soundLater, grows, _⟩
  · rw [failed] at returned
    cases returned
  rw [returned] at run
  cases run
  exact ⟨soundLater, grows⟩

theorem StringRuns.grows
    (runs : StringRuns order estimate allocator heap heap') (sound : Sound order seed heap) :
    Sound order seed heap' ∧ Grows heap heap' := by
  induction runs with
  | refl => exact ⟨sound, Grows.refl heap⟩
  | call before admissible returned ih =>
    obtain ⟨soundBefore, growsBefore⟩ := ih
    obtain ⟨soundAfter, growsAfter⟩ := grows_of_returned soundBefore admissible returned
    exact ⟨soundAfter, growsBefore.trans growsAfter⟩

/-- In every heap that calls lead to, all strings hold code points, which no further
calls change; of the headers on one buffer at most one may grow, and it ends last; a
call writes only behind every string that exists, and never outside a buffer. -/
theorem strings_are_immutable (order : ByteOrder) (seed : UInt64) (estimate : Nat → Nat)
    (allocator : Allocator) {heap : StringHeap}
    (reached : StringRuns order estimate allocator initial heap) :
    (∀ (i : Nat) (s : StringHeader), heap.strings[i]? = some s →
      ∃ cs, Spells order seed (heap.view s) cs ∧
        ∀ heap', StringRuns order estimate allocator heap heap' →
          ∃ t, heap'.strings[i]? = some t ∧ heap'.view t = heap.view s ∧
            Spells order seed (heap'.view t) cs) ∧
    (∀ (i j : Nat) (s t : StringHeader), heap.strings[i]? = some s → heap.strings[j]? = some t →
      i ≠ j → t.bufstart = s.bufstart → s.flags.isGrowable = true →
        t.flags.isGrowable = false ∧ t.strstart + t.bufused ≤ s.strstart + s.bufused) ∧
    (∀ op : StringOperation, op.Admissible order heap →
      Throws (op.run order estimate allocator heap) ∨
        ∃ heap' result, op.run order estimate allocator heap = .ok (heap', result) ∧
          ∀ (i : Nat) (s : StringHeader), heap.strings[i]? = some s →
            (heap'.bufferAt s.bufstart).take (s.strstart + s.bufused) =
              (heap.bufferAt s.bufstart).take (s.strstart + s.bufused)) := by
  have sound : Sound order seed heap := (reached.grows sound_initial).1
  refine ⟨?_, ?_, ?_⟩
  · intro i s found
    obtain ⟨cs, spells⟩ := sound.spelled i s found
    refine ⟨cs, spells, ?_⟩
    intro heap' later
    obtain ⟨t, there, same⟩ := (later.grows sound).2.view sound.disciplined found
    refine ⟨t, there, same, ?_⟩
    rw [same]
    exact spells
  · intro i j s t foundI foundJ differ same growable
    exact sound.disciplined.owner (getElem?_shared foundI) (getElem?_shared foundJ) differ same
      growable
  intro op admissible
  rcases run_continues sound admissible with throws | ⟨heap', result, run, _, grows, _⟩
  · exact .inl throws
  refine .inr ⟨heap', result, run, ?_⟩
  intro i s found
  exact SharedBuffers.steps_unseen grows.steps sound.disciplined (getElem?_shared found)

/-- "ab", "c" and "abc" after an append in place: the first string and the last one
share a buffer. -/
def appended : StringHeap :=
  ⟨[[], [97, 98, 99, 0, 0, 0, 0, 0], [99, 0, 0, 0, 0, 0, 0, 0]],
    [emptyHeader, ⟨⟨false, true, false, false⟩, 1, 0, 2, .ascii, 2, 0⟩,
      ⟨.none, 2, 0, 1, .ascii, 1, 0⟩, ⟨.none, 1, 0, 3, .ascii, 3, 0⟩]⟩

theorem strings_are_immutable_appended :
    ∃ cs, Spells .little 0 (appended.view ⟨⟨false, true, false, false⟩, 1, 0, 2, .ascii, 2, 0⟩) cs ∧
      ∀ heap', StringRuns .little id alignedAllocator appended heap' →
        ∃ t, heap'.strings[1]? = some t ∧
          heap'.view t = appended.view ⟨⟨false, true, false, false⟩, 1, 0, 2, .ascii, 2, 0⟩ ∧
          Spells .little 0 (heap'.view t) cs := by
  have first : StringRuns .little id alignedAllocator initial
      ⟨[[], [97, 98, 0, 0, 0, 0, 0, 0]], [emptyHeader, ⟨.none, 1, 0, 2, .ascii, 2, 0⟩]⟩ :=
    @StringRuns.call _ _ _ _ _ _ (.newInit [97, 98] .ascii .none) _ .refl ⟨nofun, trivial⟩ rfl
  have second : StringRuns .little id alignedAllocator initial
      ⟨[[], [97, 98, 0, 0, 0, 0, 0, 0], [99, 0, 0, 0, 0, 0, 0, 0]], [emptyHeader,
        ⟨.none, 1, 0, 2, .ascii, 2, 0⟩, ⟨.none, 2, 0, 1, .ascii, 1, 0⟩]⟩ :=
    @StringRuns.call _ _ _ _ _ _ (.newInit [99] .ascii .none) _ first ⟨nofun, trivial⟩ rfl
  have third : StringRuns .little id alignedAllocator initial appended :=
    @StringRuns.call _ _ _ _ _ _ (.concat (some 1) (some 2)) _ second ⟨by decide, trivial⟩ rfl
  exact (strings_are_immutable .little 0 id alignedAllocator third).1 1 _ rfl

end

end RakudoStar.Strings
