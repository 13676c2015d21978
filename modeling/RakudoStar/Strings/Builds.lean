import RakudoStar.Strings.StringBuilder

/-!
# What a builder collects

The buffer is alone on its storage, so it may be rewritten while all other strings stay. Every
call keeps that, and the buffer spells what was pushed.
-/

namespace RakudoStar.Strings.StringBuilder

open Foundation List RakudoStar.Except
open StringHeap

section

variable (order : ByteOrder) (seed : UInt64)

/-- It spells these code points, from a start that no other header is on. -/
structure Builds (heap : StringHeap) (b : Nat) (s : StringHeader) (cs : List Nat) : Prop where
  sound : Sound order seed heap
  found : heap.strings[b]? = some s
  spells : Spells order seed (heap.view s) cs
  start : s.strstart = 0
  hash : s.hashval = 0
  alone : heap.shared.Alone b s.bufstart
  notEmpty : b ≠ 0

end

/-- All other strings stay as they are. -/
def Leaves (b : Nat) (heap heap' : StringHeap) : Prop :=
  ∀ (i : Nat) (s : StringHeader), i ≠ b → heap.strings[i]? = some s →
    heap'.strings[i]? = some s ∧ heap'.view s = heap.view s

theorem Leaves.refl (b : Nat) (heap : StringHeap) : Leaves b heap heap :=
  fun _ _ _ found => ⟨found, rfl⟩

theorem Leaves.trans {b : Nat} {heap middle heap' : StringHeap} (first : Leaves b heap middle)
    (second : Leaves b middle heap') : Leaves b heap heap' := by
  intro i s other found
  have middle := first i s other found
  have last := second i s other middle.1
  exact ⟨last.1, last.2.trans middle.2⟩

section

variable {order : ByteOrder} {seed : UInt64} {estimate : Nat → Nat} {allocator : Allocator}
  {heap : StringHeap} {b : Nat} {s : StringHeader} {cs ds : List Nat}

theorem Leaves.reads {heap' : StringHeap} (leaves : Leaves b heap heap') {i : Nat} (other : i ≠ b)
    (reads : Reads order seed heap i cs) : Reads order seed heap' i cs := by
  obtain ⟨s, found, spells⟩ := reads
  have left := leaves i s other found
  rw [← left.2] at spells
  exact ⟨s, left.1, spells⟩

section
variable (builds : Builds order seed heap b s cs)
include builds

theorem Builds.bytes : (heap.view s).bytes = (heap.bufferAt s.bufstart).take s.bufused := by
  change ((heap.shared.bufferAt s.bufstart).drop s.strstart).take s.bufused = _
  rw [builds.start, drop_zero]
  rfl

theorem Builds.used : s.bufused = ((codeOf order s.encoding).text cs).length := by
  have bytes : (heap.view s).bytes = (codeOf order s.encoding).text cs := builds.spells.bytes
  rw [← builds.sound.bufused builds.found, bytes]

theorem Builds.fits : s.bufused ≤ (heap.bufferAt s.bufstart).length := by
  have inside := builds.sound.disciplined.fits s.window
    (mem_of_getElem? (getElem?_shared builds.found))
  exact le_trans (Nat.le_add_left _ _) inside

theorem Builds.allocated : s.bufstart < heap.buffers.length :=
  builds.sound.disciplined.allocated s.window (mem_of_getElem? (getElem?_shared builds.found))

theorem Builds.replace {buffers : List (List UInt8)}
    {t : StringHeader} (alone : heap.shared.Alone b t.bufstart)
    (rewrites : heap.shared.Rewrites t.bufstart buffers) (allocated : t.bufstart < buffers.length)
    (start : t.strstart = 0) (hash : t.hashval = 0)
    (fits : t.bufused ≤ (buffers.getD t.bufstart []).length) (spells : Spells order seed
      ⟨t.encoding, (buffers.getD t.bufstart []).take t.bufused, t.strlen, 0⟩ ds) :
    Builds order seed ⟨buffers, heap.strings.set b t⟩ b t ds ∧
      Leaves b heap ⟨buffers, heap.strings.set b t⟩ := by
  have inside : b < heap.strings.length := (List.getElem?_eq_some_iff.mp builds.found).1
  have windows : (StringHeap.mk buffers (heap.strings.set b t)).shared =
      ⟨buffers, heap.shared.windows.set b t.window⟩ := by
    rw [shared, map_set]
    rfl
  have leaves : Leaves b heap ⟨buffers, heap.strings.set b t⟩ := by
    intro i u other found
    have window := getElem?_shared found
    have old := builds.sound.disciplined.allocated u.window (mem_of_getElem? window)
    have apart : u.window.buffer ≠ t.bufstart := alone i u.window other window
    refine ⟨(getElem?_set_ne (Ne.symm other)).trans found, ?_⟩
    rw [StringHeap.view, StringHeap.view, windows, SharedBuffers.view_rewrite rewrites old apart]
  have new : (heap.strings.set b t)[b]? = some t := getElem?_set_self inside
  have view : (StringHeap.mk buffers (heap.strings.set b t)).view t =
      ⟨t.encoding, (buffers.getD t.bufstart []).take t.bufused, t.strlen, 0⟩ := by
    rw [StringHeap.view, windows, SharedBuffers.view, hash, StringHeader.window, start, drop_zero]
    rfl
  have stop : t.window.stop ≤ (buffers.getD t.window.buffer []).length := by
    rw [BufferWindow.stop, StringHeader.window, start, zero_add]
    exact fits
  rw [← view] at spells
  refine ⟨⟨⟨?_, ?_, ?_⟩, new, spells, start, hash, ?_, builds.notEmpty⟩, leaves⟩
  · rw [windows]
    exact SharedBuffers.disciplined_rewrite builds.sound.disciplined alone rewrites allocated stop
  · intro i u found
    by_cases itself : i = b
    · subst itself
      rw [new] at found
      cases found
      exact ⟨ds, spells⟩
    have before : heap.strings[i]? = some u := (getElem?_set_ne (Ne.symm itself)).symm.trans found
    obtain ⟨es, spelled⟩ := builds.sound.spelled i u before
    rw [← (leaves i u itself before).2] at spelled
    exact ⟨es, spelled⟩
  · exact leaves.reads (Ne.symm builds.notEmpty) builds.sound.empty
  · intro i w other found
    rw [windows] at found
    exact alone i w other ((getElem?_set_ne (Ne.symm other)).symm.trans found)

theorem Builds.inPlace {memory : List UInt8} {t : StringHeader} (same : t.bufstart = s.bufstart)
    (start : t.strstart = 0) (hash : t.hashval = 0) (fits : t.bufused ≤ memory.length)
    (spells : Spells order seed ⟨t.encoding, memory.take t.bufused, t.strlen, 0⟩ ds) :
    Builds order seed ⟨heap.buffers.set s.bufstart memory, heap.strings.set b t⟩ b t ds ∧
      Leaves b heap ⟨heap.buffers.set s.bufstart memory, heap.strings.set b t⟩ := by
  have written : (heap.buffers.set s.bufstart memory).getD t.bufstart [] = memory := by
    rw [same]
    exact @SharedBuffers.bufferAt_set UInt8 heap.shared memory [] s.bufstart builds.allocated
  apply builds.replace
  · rw [same]
    exact builds.alone
  · rw [same]
    exact SharedBuffers.rewrites_set heap.shared s.bufstart memory
  · rw [same, length_set]
    exact builds.allocated
  · exact start
  · exact hash
  · rw [written]
    exact fits
  · rw [written]
    exact spells

theorem Builds.moved {memory : List UInt8} {t : StringHeader}
    (fresh : t.bufstart = heap.buffers.length) (start : t.strstart = 0) (hash : t.hashval = 0)
    (fits : t.bufused ≤ memory.length)
    (spells : Spells order seed ⟨t.encoding, memory.take t.bufused, t.strlen, 0⟩ ds) :
    Builds order seed ⟨heap.buffers ++ [memory], heap.strings.set b t⟩ b t ds ∧
      Leaves b heap ⟨heap.buffers ++ [memory], heap.strings.set b t⟩ := by
  have written : (heap.buffers ++ [memory]).getD t.bufstart [] = memory := by
    rw [fresh]
    exact @SharedBuffers.bufferAt_new UInt8 heap.shared memory []
  apply builds.replace
  · rw [fresh]
    exact builds.sound.disciplined.alone_new b
  · rw [fresh]
    exact SharedBuffers.rewrites_append heap.shared memory
  · rw [fresh, length_append]
    exact Nat.lt_succ_self _
  · exact start
  · exact hash
  · rw [written]
    exact fits
  · rw [written]
    exact spells

theorem Builds.relabelled {enc : Encoding}
    (spells : Spells order seed ⟨enc, (heap.view s).bytes, s.strlen, 0⟩ ds) :
    Builds order seed (setHeader heap b { s with encoding := enc }) b { s with encoding := enc }
        ds ∧
      Leaves b heap (setHeader heap b { s with encoding := enc }) := by
  rw [builds.bytes] at spells
  refine builds.replace builds.alone ⟨le_rfl, fun _ _ _ => rfl⟩ builds.allocated builds.start
    builds.hash builds.fits spells

/-- The string of the header, as the record that relabelling speaks of. -/
theorem Builds.spells_record :
    Spells order seed ⟨s.encoding, (heap.view s).bytes, s.strlen, 0⟩ cs where
  holds := builds.spells.holds
  bytes := builds.spells.bytes
  strlen := builds.spells.strlen
  cached := .inl rfl

/-- The heap after the buffer got more room. -/
structure Roomier (order : ByteOrder) (seed : UInt64) (heap heap' : StringHeap) (b : Nat)
    (s : StringHeader) (cs : List Nat) (size : Nat) : Prop where
  same : ∃ bufstart, Builds order seed heap' b { s with bufstart } cs ∧
    size ≤ (heap'.bufferAt bufstart).length
  leaves : Leaves b heap heap'

theorem reallocateStorage_spec (size : Nat) :
    ∃ heap', reallocateStorage allocator heap b size = .ok heap' ∧
      Roomier order seed heap heap' b s cs size := by
  rw [reallocateStorage, read_found builds.found, ok_bind]
  by_cases already : size ≤ (heap.bufferAt s.bufstart).length
  · rw [if_pos already]
    exact ⟨heap, rfl, ⟨s.bufstart, builds, already⟩, Leaves.refl b heap⟩
  rw [if_neg already]
  have used := builds.sound.bufused builds.found
  have enough : s.bufused ≤ size := le_trans builds.fits (Nat.lt_of_not_le already).le
  have room : 0 + (heap.view s).bytes.length ≤ (allocate allocator heap size).length := by
    rw [zero_add, used]
    exact le_trans enough (allocate_length allocator heap size)
  have length := overwrite_length room
  have written : (overwrite (allocate allocator heap size) 0 (heap.view s).bytes).take s.bufused =
      (heap.view s).bytes := by
    rw [overwrite, take_zero, nil_append, ← used, take_left]
  have started : { s with bufstart := heap.buffers.length, strstart := 0 } =
      { s with bufstart := heap.buffers.length } := by
    rw [← builds.start]
  rw [writeAt_eq room, ok_bind, started]
  generalize overwrite (allocate allocator heap size) 0 (heap.view s).bytes = memory
    at length written
  have large : size ≤ memory.length := by
    rw [length]
    exact allocate_length allocator heap size
  have record := builds.spells_record
  rw [← written] at record
  have after := @Builds.moved order seed heap b s cs cs builds memory
    { s with bufstart := heap.buffers.length } rfl builds.start builds.hash
    (enough.trans large) record
  refine ⟨_, rfl, ⟨heap.buffers.length, after.1, ?_⟩, after.2⟩
  have here : (StringHeap.mk (heap.buffers ++ [memory]) (heap.strings.set b
      { s with bufstart := heap.buffers.length })).bufferAt heap.buffers.length = memory :=
    @SharedBuffers.bufferAt_new UInt8 heap.shared memory _
  rw [here]
  exact large

end

theorem le_calculateCapacity (needed : Nat) : needed ≤ calculateCapacity needed := by
  unfold calculateCapacity
  omega

section
variable (builds : Builds order seed heap b s cs)
include builds

theorem reserve_spec (size : Nat) : ∃ heap', reserve allocator heap b size = .ok heap' ∧
      Roomier order seed heap heap' b s cs size := by
  rw [reserve, read_found builds.found, ok_bind]
  by_cases short : (heap.bufferAt s.bufstart).length < size
  · rw [if_pos short]
    obtain ⟨heap', run, ⟨bufstart, after, room⟩, leaves⟩ := @reallocateStorage_spec order seed
      allocator heap b s cs builds (calculateCapacity size)
    exact ⟨heap', run, ⟨bufstart, after, (le_calculateCapacity size).trans room⟩, leaves⟩
  · rw [if_neg short]
    exact ⟨heap, rfl, ⟨s.bufstart, builds, Nat.le_of_not_lt short⟩, Leaves.refl b heap⟩

theorem reserveExactly_spec (size : Nat) :
    ∃ heap', reserveExactly allocator heap b size = .ok heap' ∧
      Roomier order seed heap heap' b s cs size := by
  rw [reserveExactly, read_found builds.found, ok_bind]
  by_cases short : (heap.bufferAt s.bufstart).length < size
  · have larger := le_calculateCapacity size
    have enough : s.bufused ≤ size := le_trans builds.fits short.le
    obtain ⟨middle, run, ⟨bufstart, after, room⟩, leaves⟩ := @reallocateStorage_spec order seed
      allocator heap b s cs builds (calculateCapacity size)
    -- the length is the capacity, even where the allocator gave more
    generalize calculateCapacity size = capacity at larger room run
    have shortened : ((middle.bufferAt bufstart).take capacity).length = capacity := by
      rw [length_take, min_eq_left room]
    have kept : ((middle.bufferAt bufstart).take capacity).take s.bufused =
        (middle.bufferAt bufstart).take s.bufused := by
      rw [take_take, min_eq_left (enough.trans larger)]
    have record := after.spells_record
    rw [after.bytes] at record
    rw [← kept] at record
    have fits : s.bufused ≤ ((middle.bufferAt bufstart).take capacity).length := by
      rw [shortened]
      exact le_trans enough larger
    have shorter := @Builds.inPlace order seed middle b { s with bufstart } cs cs after _
      { s with bufstart } rfl builds.start builds.hash fits record
    have strings : middle.strings.set b { s with bufstart } = middle.strings := by
      obtain ⟨inside, there⟩ := List.getElem?_eq_some_iff.mp after.found
      rw [← there, set_getElem_self inside]
    rw [strings] at shorter
    have here : (StringHeap.mk (middle.buffers.set bufstart
        ((middle.bufferAt bufstart).take capacity)) middle.strings).bufferAt bufstart =
          (middle.bufferAt bufstart).take capacity :=
      @SharedBuffers.bufferAt_set UInt8 middle.shared _ _ bufstart after.allocated
    rw [if_pos short, run, ok_bind, setBuflen, read_found after.found, ok_bind]
    refine ⟨_, rfl, ⟨bufstart, shorter.1, ?_⟩, leaves.trans shorter.2⟩
    rw [here, shortened]
    exact larger
  · rw [if_neg short]
    exact ⟨heap, rfl, ⟨s.bufstart, builds, Nat.le_of_not_lt short⟩, Leaves.refl b heap⟩

theorem Builds.newString (flags : StringFlags) {size : Nat} {str : ParrotString}
    (enough : str.bytes.length ≤ size) (spells : Spells order seed str ds) :
    ∃ heap' i t, StringHeap.newString allocator heap flags size str = .ok (heap', i) ∧
      Builds order seed heap' b s cs ∧ Leaves b heap heap' ∧ i ≠ b ∧ heap'.strings[i]? = some t ∧
        heap'.view t = str := by
  have yields := @yields_newString order seed heap ds builds.sound allocator flags size str
    (· = str) enough spells rfl
  have room : 0 + str.bytes.length ≤ (allocate allocator heap size).length := by
    rw [zero_add]
    exact le_trans enough (allocate_length allocator heap size)
  rw [StringHeap.newString, writeAt_eq room, ok_bind] at yields ⊢
  rcases yields with ⟨_, _, thrown⟩ | ⟨heap', i, t, run, sound, grows, new, shows⟩
  · cases thrown
  have inside : b < heap.strings.length := (List.getElem?_eq_some_iff.mp builds.found).1
  cases run
  have old : ∀ (j : Nat) (u : StringHeader), heap.strings[j]? = some u → _ :=
    fun _ _ found => grows.append builds.sound.disciplined rfl found
  have kept := old b s builds.found
  refine ⟨_, _, t, rfl, ⟨sound, kept.1, ?_, builds.start, builds.hash, ?_, builds.notEmpty⟩, ?_,
    inside.ne', new, shows⟩
  · rw [kept.2]
    exact builds.spells
  · intro j w other found
    rw [shared, map_append] at found
    rcases SharedBuffers.getElem?_append_singleton found with old | ⟨-, rfl⟩
    · exact builds.alone j w other old
    · exact ne_of_gt builds.allocated
  · exact fun j u _ found => old j u found

theorem convertToUtf8_apart {i : Nat} {t : StringHeader} (other : i ≠ b)
    (found : heap.strings[i]? = some t) (spells : Spells order seed (heap.view t) ds) :
    ∃ heap' k u, convertToUtf8 order estimate allocator heap i = .ok (heap', k) ∧
      Builds order seed heap' b s cs ∧ Leaves b heap heap' ∧ k ≠ b ∧ heap'.strings[k]? = some u ∧
        Spells order seed (heap'.view u) ds ∧ u.encoding = .utf8 := by
  rw [convertToUtf8, read_found found, ok_bind]
  by_cases foreign : t.encoding ≠ .utf8
  · rw [if_pos foreign, convert, read_found found, ok_bind]
    rcases utf8ToEncoding_spec spells estimate with ⟨_, str, run, kept, tag⟩ | ⟨refused, _⟩
    · obtain ⟨heap', k, u, made, after, leaves, apart, new, shows⟩ := @Builds.newString order seed
        allocator heap b s cs ds builds .none _ str le_rfl kept
      refine ⟨heap', k, u, ?_, after, leaves, apart, new, ?_, ?_⟩
      · change utf8ToEncoding order estimate (heap.view t) >>= _ = _
        rw [run, ok_bind]
        exact made
      · rw [shows]
        exact kept
      · rw [← tag, ← shows]
        rfl
    · exact absurd (fun c member => (spells.holds c member).isCharacter) refused
  · rw [if_neg foreign]
    exact ⟨heap, i, t, rfl, builds, Leaves.refl b heap, other, found, spells,
      Decidable.not_not.mp foreign⟩

theorem rewrite_spec {position : Nat} {bytes : List UInt8} {change : StringHeader → StringHeader}
    (room : position + bytes.length ≤ (heap.bufferAt s.bufstart).length)
    (same : (change s).bufstart = s.bufstart) (start : (change s).strstart = 0)
    (hash : (change s).hashval = 0) (fits : (change s).bufused ≤ (heap.bufferAt s.bufstart).length)
    (spells : Spells order seed ⟨(change s).encoding,
      (overwrite (heap.bufferAt s.bufstart) position bytes).take (change s).bufused,
      (change s).strlen, 0⟩ ds) : ∃ heap', rewrite heap b position bytes change = .ok heap' ∧
      Builds order seed heap' b (change s) ds ∧ Leaves b heap heap' := by
  rw [rewrite, read_found builds.found, ok_bind, writeAt_eq room, ok_bind]
  rw [← overwrite_length room] at fits
  exact ⟨_, rfl, builds.inPlace same start hash fits spells⟩

theorem convertEncoding_spec (sizeToAdd : Nat) :
    ∃ heap' s', convertEncoding order estimate allocator heap .utf8 b sizeToAdd = .ok heap' ∧
      Builds order seed heap' b s' cs ∧ Leaves b heap heap' ∧ s'.encoding = .utf8 := by
  rcases utf8ToEncoding_spec builds.spells estimate with ⟨_, str, run, kept, tag⟩ | ⟨refused, _⟩
  · obtain ⟨first, k, t, made, builtFirst, leavesFirst, apart, found, shows⟩ := @Builds.newString
      order seed allocator heap b s cs cs builds .none _ str le_rfl kept
    have converted : convert order estimate allocator heap .utf8 b = .ok (first, k) := by
      rw [convert, read_found builds.found, ok_bind]
      change utf8ToEncoding order estimate (heap.view s) >>= _ = _
      rw [run, ok_bind]
      exact made
    obtain ⟨second, reserved, ⟨bufstart, builtSecond, room⟩, leavesSecond⟩ := @reserve_spec order
      seed allocator first b s cs builtFirst (t.bufused + sizeToAdd)
    have used := builtFirst.sound.bufused found
    have same : second.view t = str := (leavesSecond k t apart found).2.trans shows
    have length : str.bytes.length = t.bufused := by
      rw [← shows]
      exact used
    have enough : 0 + str.bytes.length ≤ (second.bufferAt bufstart).length := by
      rw [zero_add, length]
      exact le_trans (Nat.le_add_right _ _) room
    have spelled : Spells order seed ⟨t.encoding,
        (overwrite (second.bufferAt bufstart) 0 str.bytes).take t.bufused, s.strlen, 0⟩ cs := by
      have encoding : t.encoding = str.encoding := congrArg ParrotString.encoding shows
      have strlen : s.strlen = str.strlen := builds.spells.strlen.trans kept.strlen.symm
      rw [overwrite, take_zero, nil_append, ← length, take_left, encoding, strlen]
      exact ⟨kept.holds, kept.bytes, kept.strlen, .inl rfl⟩
    obtain ⟨heap', rewritten, built, leaves⟩ := @rewrite_spec order seed second b
      { s with bufstart } cs cs builtSecond 0 str.bytes
      (fun s => { s with bufused := t.bufused, encoding := t.encoding }) enough rfl builds.start
      builds.hash ((Nat.le_add_right _ _).trans room) spelled
    refine ⟨heap', _, ?_, built, leavesFirst.trans (leavesSecond.trans leaves), ?_⟩
    · rw [convertEncoding, converted, ok_bind]
      dsimp only
      rw [read_found found, ok_bind, reserved, ok_bind, read_found builtSecond.found, ok_bind, same]
      rw [builds.start]
      exact rewritten
    · exact (congrArg ParrotString.encoding shows).trans tag
  · exact absurd (fun c member => (builds.spells.holds c member).isCharacter) refused

end

theorem codes_of_empty {str : ParrotString} (spells : Spells order seed str cs)
    (none : str.bytes.length = 0) : cs = [] := by
  cases cs with
  | nil => rfl
  | cons c cs =>
    have holds := spells.holds c mem_cons_self
    have positive := length_pos_of_ne_nil ((codeOf order str.encoding).spell_ne_nil holds)
    rw [spells.bytes, WordCode.text_cons, length_append] at none
    exact absurd (Nat.eq_zero_of_add_eq_zero none).1 positive.ne'

theorem spells_nothing (encoding : Encoding) : Spells order seed ⟨encoding, [], 0, 0⟩ [] :=
  ⟨nofun, rfl, rfl, .inl rfl⟩

theorem Builds.adopt (builds : Builds order seed heap b s []) (encoding : Encoding) :
    Builds order seed (setHeader heap b { s with encoding }) b { s with encoding } [] ∧
      Leaves b heap (setHeader heap b { s with encoding }) := by
  have bytes : (heap.view s).bytes = [] := builds.spells.bytes
  have strlen : s.strlen = 0 := builds.spells.strlen
  apply builds.relabelled
  rw [bytes, strlen]
  exact spells_nothing encoding

section
variable (builds : Builds order seed heap b s cs)
include builds

/-- After `unifyEncodings` the buffer's encoding spells what is pushed. -/
theorem unifyEncodings_spec {i : Nat} {t : StringHeader} (other : i ≠ b)
    (found : heap.strings[i]? = some t) (spells : Spells order seed (heap.view t) ds) :
    ∃ heap' k s' u, unifyEncodings order estimate allocator heap b i = .ok (heap', k) ∧
      Builds order seed heap' b s' cs ∧ Leaves b heap heap' ∧ k ≠ b ∧ heap'.strings[k]? = some u ∧
        Spells order seed (heap'.view u) ds ∧ SpeltAlike order s'.encoding u.encoding ds := by
  rw [unifyEncodings, read_found builds.found, ok_bind, read_found found, ok_bind]
  by_cases unused : s.bufused = 0
  · have nothing : cs = [] := by
      apply codes_of_empty builds.spells
      rw [builds.sound.bufused builds.found, unused]
    subst nothing
    obtain ⟨built, leaves⟩ := builds.adopt t.encoding
    have left := leaves i t other found
    rw [if_pos unused]
    refine ⟨_, i, _, t, rfl, built, leaves, other, left.1, ?_, spells.alike⟩
    rw [left.2]
    exact spells
  rw [if_neg unused]
  cases chosen : (if s.encoding = t.encoding then some s.encoding else repCompatible s t) with
  | some enc =>
    have alike : SpeltAlike order enc s.encoding cs ∧ SpeltAlike order enc t.encoding ds := by
      by_cases equal : s.encoding = t.encoding
      · rw [if_pos equal] at chosen
        cases chosen
        refine ⟨builds.spells.alike, ?_⟩
        rw [equal]
        exact spells.alike
      · rw [if_neg equal] at chosen
        exact repCompatible_spec builds.spells spells rfl rfl rfl rfl
          (builds.sound.bufused builds.found) (builds.sound.bufused found) chosen
    obtain ⟨built, leaves⟩ := builds.relabelled (builds.spells.relabel alike.1)
    have left := leaves i t other found
    refine ⟨_, i, _, t, rfl, built, leaves, other, left.1, ?_, alike.2⟩
    rw [left.2]
    exact spells
  | none =>
    obtain ⟨first, k, u, converted, builtFirst, leavesFirst, apart, there, spelled, utf8⟩ :=
      @convertToUtf8_apart order seed estimate allocator heap b s cs ds builds i t other found
        spells
    rw [converted, ok_bind]
    dsimp only
    rw [read_found there, ok_bind]
    have alike : SpeltAlike order .utf8 u.encoding ds := by
      rw [utf8]
      exact fun c member => ⟨(spells.holds c member).isCharacter, rfl⟩
    by_cases foreign : s.encoding ≠ .utf8
    · obtain ⟨second, s', run, built, leaves, encoding⟩ := @convertEncoding_spec order seed
        estimate allocator first b s cs builtFirst u.bufused
      have left := leaves k u apart there
      rw [if_pos foreign, run, ok_bind]
      refine ⟨second, k, s', u, rfl, built, leavesFirst.trans leaves, apart, left.1, ?_, ?_⟩
      · rw [left.2]
        exact spelled
      · rw [encoding]
        exact alike
    rw [if_neg foreign, ok_bind]
    refine ⟨first, k, s, u, rfl, builtFirst, leavesFirst, apart, there, spelled, ?_⟩
    rw [Decidable.not_not.mp foreign]
    exact alike

theorem pushString_spec {i : Nat} (other : i ≠ b) (reads : Reads order seed heap i ds) :
    ∃ heap' s', pushString order estimate allocator heap b i = .ok heap' ∧
      Builds order seed heap' b s' (cs ++ ds) ∧ Leaves b heap heap' := by
  obtain ⟨t, found, spells⟩ := reads
  rw [pushString, read_found found, ok_bind]
  by_cases empty : t.strlen = 0
  · have nothing : ds = [] := length_eq_zero_iff.mp (spells.strlen.symm.trans empty)
    rw [if_pos empty, nothing, append_nil]
    exact ⟨heap, s, rfl, builds, Leaves.refl b heap⟩
  obtain ⟨first, k, s', u, unified, builtFirst, leavesFirst, apart, there, spelled, alike⟩ :=
    @unifyEncodings_spec order seed estimate allocator heap b s cs ds builds i t other found spells
  obtain ⟨second, reserved, ⟨bufstart, builtSecond, room⟩, leavesSecond⟩ := @reserveExactly_spec
    order seed allocator first b s' cs builtFirst (s'.bufused + u.bufused)
  have left := leavesSecond k u apart there
  have length : (second.view u).bytes.length = u.bufused := builtSecond.sound.bufused left.1
  have enough : s'.bufused + (second.view u).bytes.length ≤ (second.bufferAt bufstart).length := by
    rw [length]
    exact room
  rw [← left.2] at spelled
  have whole := builtSecond.spells_record.append (spelled.relabel alike) rfl
  have shown := @overwrite_window UInt8 (second.bufferAt bufstart) (second.view u).bytes 0
    s'.bufused (by rw [zero_add]; exact enough)
  rw [zero_add, drop_zero, drop_zero, length] at shown
  rw [builtSecond.bytes] at whole
  rw [← shown] at whole
  obtain ⟨heap', rewritten, built, leaves⟩ := @rewrite_spec order seed second b
    { s' with bufstart } cs (cs ++ ds) builtSecond s'.bufused (second.view u).bytes
    (fun s => { s with bufused := s.bufused + u.bufused, strstart := 0,
                       strlen := s.strlen + u.strlen, hashval := 0 })
    enough rfl rfl rfl room whole
  refine ⟨heap', _, ?_, built, leavesFirst.trans (leavesSecond.trans leaves)⟩
  rw [if_neg empty, unified, ok_bind]
  dsimp only
  rw [read_found builtFirst.found, ok_bind, read_found there, ok_bind, reserved, ok_bind]
  exact rewritten

/-- The code point that `push_integer` stores. -/
def codepointOf (value : Int) : Nat := (value % 2 ^ 64).toNat

/-- Afterwards the buffer has an encoding that holds the code point. -/
theorem prepareEncoding_spec (value : Int) :
    ∃ heap' s', prepareEncoding order estimate allocator heap b value = .ok heap' ∧
      Builds order seed heap' b s' cs ∧ Leaves b heap heap' ∧
        (0x7F < value → s'.encoding = .utf8) := by
  rw [prepareEncoding, read_found builds.found, ok_bind]
  by_cases foreign : s.encoding ≠ .utf8 ∧ 0x7F < value
  · rw [if_pos foreign]
    by_cases empty : s.strlen = 0
    · have nothing : cs = [] := length_eq_zero_iff.mp (builds.spells.strlen.symm.trans empty)
      subst nothing
      obtain ⟨built, leaves⟩ := builds.adopt .utf8
      rw [if_pos empty]
      exact ⟨_, _, rfl, built, leaves, fun _ => rfl⟩
    rw [if_neg empty]
    obtain ⟨heap', s', run, built, leaves, encoding⟩ := @convertEncoding_spec order seed
      estimate allocator heap b s cs builds sizeofIntval
    exact ⟨heap', s', run, built, leaves, fun _ => encoding⟩
  · rw [if_neg foreign]
    refine ⟨heap, s, rfl, builds, Leaves.refl b heap, fun large => ?_⟩
    exact Decidable.not_not.mp fun utf8 => foreign ⟨utf8, large⟩

theorem prepareInteger_spec (value : Int) :
    ∃ heap' s', prepareInteger order estimate allocator heap b value = .ok heap' ∧
      Builds order seed heap' b s' cs ∧ Leaves b heap heap' ∧ (0x7F < value → s'.encoding = .utf8) ∧
        s'.bufused + sizeofIntval ≤ (heap'.bufferAt s'.bufstart).length := by
  obtain ⟨first, s', run, built, leaves, utf8⟩ := @prepareEncoding_spec order seed estimate
    allocator heap b s cs builds value
  obtain ⟨heap', reserved, ⟨bufstart, after, room⟩, leavesSecond⟩ := @reserve_spec order seed
    allocator first b s' cs built (s'.bufused + sizeofIntval)
  refine ⟨heap', { s' with bufstart }, ?_, after, leaves.trans leavesSecond, utf8, room⟩
  rw [prepareInteger, run, ok_bind, read_found built.found, ok_bind]
  exact reserved

end

theorem maxBytesPerCodepoint_le (encoding : Encoding) :
    encoding.maxBytesPerCodepoint ≤ sizeofIntval := by
  cases encoding <;> exact Nat.le_of_ble_eq_true rfl

/-- What the encoding holds is stored behind the others, the rest is refused. -/
theorem storeInteger_spec (builds : Builds order seed heap b s cs) (value : Int)
    (room : s.bufused + sizeofIntval ≤ (heap.bufferAt s.bufstart).length) :
    s.encoding.Holds (codepointOf value) ∧ (∃ heap' s', storeInteger order heap b value =
        .ok heap' ∧ Builds order seed heap' b s' (cs ++ [codepointOf value]) ∧
          Leaves b heap heap') ∨
      ¬s.encoding.Holds (codepointOf value) ∧ Throws (storeInteger order heap b value) := by
  rw [storeInteger, read_found builds.found, ok_bind]
  dsimp only
  have whole : (heap.bufferAt s.bufstart).drop s.strstart = heap.bufferAt s.bufstart := by
    rw [builds.start, drop_zero]
  have before : (heap.bufferAt s.bufstart).take s.strstart = [] := by
    rw [builds.start, take_zero]
  rw [whole, before]
  change _ ∧ (∃ heap' s', (iterSetAndAdvanceOf order s.encoding (heap.bufferAt s.bufstart)
    ⟨s.bufused, s.strlen⟩ (codepointOf value) >>= _) = _ ∧ _) ∨
      _ ∧ Throws (iterSetAndAdvanceOf order s.encoding (heap.bufferAt s.bufstart)
        ⟨s.bufused, s.strlen⟩ (codepointOf value) >>= _)
  generalize codepointOf value = c
  by_cases holds : s.encoding.Holds c
  · refine .inl ⟨holds, ?_⟩
    have inside : cs.length < (cs ++ [c]).length := by
      rw [length_append]
      exact Nat.lt_succ_self _
    have last : (cs ++ [c])[cs.length] = c := getElem_concat_length rfl _
    have front : (cs ++ [c]).take cs.length = cs := take_left
    have used : (codeOf order s.encoding).boundary (cs ++ [c]) cs.length = s.bufused := by
      rw [WordCode.boundary, front, builds.used]
    have strlen : s.strlen = cs.length := builds.spells.strlen
    have position : (⟨s.bufused, s.strlen⟩ : StringIter) =
        stringIterAt order s.encoding (cs ++ [c]) cs.length := by
      rw [stringIterAt, used, strlen]
    have enough : (codeOf order s.encoding).boundary (cs ++ [c]) cs.length +
        s.encoding.maxBytesPerCodepoint ≤ (heap.bufferAt s.bufstart).length := by
      rw [used]
      exact Nat.le_trans (Nat.add_le_add_left (maxBytesPerCodepoint_le s.encoding) _) room
    have text : (heap.bufferAt s.bufstart).take
        ((codeOf order s.encoding).boundary (cs ++ [c]) cs.length) =
          (codeOf order s.encoding).text ((cs ++ [c]).take cs.length) := by
      rw [used, front, ← builds.bytes]
      exact builds.spells.bytes
    rw [← last] at holds
    obtain ⟨stored, run, written⟩ := iterSetAndAdvanceOf_eq inside holds enough text
    rw [last, ← position] at run
    have all : (cs ++ [c]).take (cs.length + 1) = cs ++ [c] := by
      apply take_of_length_le
      rw [length_append]
      exact le_rfl
    rw [all] at written
    have fits : (codeOf order s.encoding).boundary (cs ++ [c]) (cs.length + 1) ≤ stored.length := by
      have length := congrArg length written
      rw [length_take, WordCode.boundary, all] at length
      rw [WordCode.boundary, all]
      omega
    have spelled : Spells order seed ⟨s.encoding,
        stored.take ((codeOf order s.encoding).boundary (cs ++ [c]) (cs.length + 1)),
        cs.length + 1, 0⟩ (cs ++ [c]) := by
      refine ⟨?_, written, ?_, .inl rfl⟩
      · intro d member
        rcases mem_append.mp member with old | new
        · exact builds.spells.holds d old
        · rw [mem_singleton.mp new, ← last]
          exact holds
      · rw [length_append]
        rfl
    rw [run, ok_bind]
    obtain ⟨built, leaves⟩ := @Builds.inPlace order seed heap b s cs (cs ++ [c]) builds stored
      { s with strlen := cs.length + 1,
               bufused := (codeOf order s.encoding).boundary (cs ++ [c]) (cs.length + 1) }
      rfl builds.start builds.hash fits spelled
    exact ⟨_, _, rfl, built, leaves⟩
  · refine .inr ⟨holds, ?_⟩
    obtain ⟨type, message, thrown⟩ := @iterSetAndAdvanceOf_throws order s.encoding c holds
      (heap.bufferAt s.bufstart) ⟨s.bufused, s.strlen⟩
    rw [thrown]
    exact ⟨type, message, rfl⟩

/-- What the buffer is prepared for: the characters and nothing else. -/
theorem holds_codepoint_iff {encoding : Encoding} (value : Int64)
    (utf8 : 0x7F < value.toInt → encoding = .utf8) : encoding.Holds (codepointOf value.toInt) ↔
      0 ≤ value.toInt ∧ IsCharacter value.toInt.toNat := by
  have upper := value.toInt_lt
  have lower := value.le_toInt
  constructor
  · intro holds
    have below := Encoding.Holds.lt holds
    have nonnegative : 0 ≤ value.toInt := by
      unfold codepointOf at below
      omega
    have same : codepointOf value.toInt = value.toInt.toNat := by
      unfold codepointOf
      omega
    rw [same] at holds
    exact ⟨nonnegative, holds.isCharacter⟩
  rintro ⟨nonnegative, character⟩
  have same : codepointOf value.toInt = value.toInt.toNat := by
    unfold codepointOf
    omega
  rw [same]
  by_cases large : 0x7F < value.toInt
  · rw [utf8 large]
    exact character
  have small : Encoding.ascii.Holds value.toInt.toNat := by
    change value.toInt.toNat < 0x80
    omega
  cases encoding with
  | ascii => exact small
  | latin1 | binary => exact lt_trans small (by decide)
  | utf8 | utf16 => exact character
  | ucs2 => exact ⟨character, small.trans (by decide)⟩
  | ucs4 => exact character

/-- A character is pushed, any other integer refused. -/
theorem pushInteger_spec (builds : Builds order seed heap b s cs) (value : Int64) :
    ∃ heap' s', (pushInteger order estimate allocator heap b value.toInt).1 = heap' ∧
      Leaves b heap heap' ∧ ((0 ≤ value.toInt ∧ IsCharacter value.toInt.toNat) ∧
          (pushInteger order estimate allocator heap b value.toInt).2 = .ok () ∧
          Builds order seed heap' b s' (cs ++ [value.toInt.toNat]) ∨
        ¬(0 ≤ value.toInt ∧ IsCharacter value.toInt.toNat) ∧
          Throws (pushInteger order estimate allocator heap b value.toInt).2 ∧
          Builds order seed heap' b s' cs) := by
  obtain ⟨first, s', prepared, built, leaves, utf8, room⟩ := @prepareInteger_spec order seed
    estimate allocator heap b s cs builds value.toInt
  have held := holds_codepoint_iff value utf8
  rcases storeInteger_spec built value.toInt room with
    ⟨holds, second, u, stored, builtSecond, leavesSecond⟩ | ⟨refused, type, message, thrown⟩
  · have character := held.mp holds
    have upper := value.toInt_lt
    have same : codepointOf value.toInt = value.toInt.toNat := by
      unfold codepointOf
      omega
    have run : pushInteger order estimate allocator heap b value.toInt = (second, .ok ()) := by
      simp only [pushInteger, prepared, stored]
    rw [same] at builtSecond
    rw [run]
    exact ⟨second, u, rfl, leaves.trans leavesSecond, .inl ⟨character, rfl, builtSecond⟩⟩
  have run : pushInteger order estimate allocator heap b value.toInt =
      (first, .error (.thrown type message)) := by
    simp only [pushInteger, prepared, thrown]
  rw [run]
  exact ⟨first, s', rfl, leaves,
    .inr ⟨fun character => refused (held.mpr character), ⟨type, message, rfl⟩, built⟩⟩

theorem setStringNative_spec (builds : Builds order seed heap b s cs) {i : Nat} (other : i ≠ b)
    (reads : Reads order seed heap i ds) :
    ∃ heap' s', setStringNative allocator heap b i = .ok heap' ∧ Builds order seed heap' b s' ds ∧
      Leaves b heap heap' := by
  obtain ⟨t, found, spells⟩ := reads
  obtain ⟨first, reallocated, ⟨bufstart, built, room⟩, leaves⟩ := @reallocateStorage_spec order
    seed allocator heap b s cs builds (calculateCapacity t.bufused)
  have left := leaves i t other found
  have length : (first.view t).bytes.length = t.bufused := built.sound.bufused left.1
  have fits : t.bufused ≤ (first.bufferAt bufstart).length := (le_calculateCapacity _).trans room
  have enough : 0 + (first.view t).bytes.length ≤ (first.bufferAt bufstart).length := by
    rw [zero_add, length]
    exact fits
  rw [← left.2] at spells
  have spelled : Spells order seed ⟨t.encoding,
      (overwrite (first.bufferAt bufstart) 0 (first.view t).bytes).take t.bufused, t.strlen, 0⟩
      ds := by
    rw [overwrite, take_zero, nil_append, ← length, take_left]
    exact ⟨spells.holds, spells.bytes, spells.strlen, .inl rfl⟩
  obtain ⟨heap', rewritten, after, leavesSecond⟩ := @rewrite_spec order seed first b
    { s with bufstart } cs ds built 0 (first.view t).bytes
    (fun s => { s with bufused := t.bufused, strlen := t.strlen, encoding := t.encoding })
    enough rfl builds.start builds.hash fits spelled
  refine ⟨heap', _, ?_, after, leaves.trans leavesSecond⟩
  rw [setStringNative, read_found found, ok_bind, reallocated, ok_bind]
  exact rewritten

theorem getString_spec (builds : Builds order seed heap b s cs) :
    ∃ heap' k t, getString allocator heap b = .ok (heap', k) ∧ Builds order seed heap' b s cs ∧
      Leaves b heap heap' ∧ k ≠ b ∧ heap'.strings[k]? = some t ∧
        Spells order seed (heap'.view t) cs := by
  obtain ⟨heap', k, t, made, built, leaves, apart, found, shows⟩ := @Builds.newString order seed
    allocator heap b s cs cs builds .none s.bufused (heap.view s)
    (builds.sound.bufused builds.found).le builds.spells
  refine ⟨heap', k, t, ?_, built, leaves, apart, found, ?_⟩
  · rw [getString, strClone, read_found builds.found, ok_bind]
    exact made
  · rw [shows]
    exact builds.spells

end

end RakudoStar.Strings.StringBuilder
