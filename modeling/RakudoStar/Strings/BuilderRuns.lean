import RakudoStar.Strings.Builds
import RakudoStar.Strings.Immutable

/-!
# Runs of a builder

Over every sequence of calls, `get_string` answers with what has been pushed since the last set,
and so does folding `Parrot_str_concat`.
-/

namespace RakudoStar.Strings

open Foundation StringHeap List RakudoStar.Except

namespace StringHeap

section

variable {order : ByteOrder} {seed : UInt64} {estimate : Nat → Nat} {allocator : Allocator}
  {heap : StringHeap} {i k : Nat} {s : StringHeader} {cs ds : List Nat} {α : Type}

theorem not_throws_ok (a : α) : ¬Throws (.ok a : Except Fault α) := by
  rintro ⟨type, message, impossible⟩
  cases impossible

theorem not_throws_bind {β : Type} {result : Except Fault α} {next : α → Except Fault β}
    (quiet : ¬Throws result) (later : ∀ a, ¬Throws (next a)) : ¬Throws (result >>= next) := by
  cases result with
  | ok a => exact later a
  | error fault =>
    rintro ⟨type, message, failed⟩
    cases failed
    exact quiet ⟨type, message, rfl⟩

theorem read_not_throws (items : List α) (position : Nat) : ¬Throws (read items position) := by
  unfold read
  split
  · exact not_throws_ok _
  · rintro ⟨type, message, impossible⟩
    cases impossible

theorem writeAt_not_throws (memory : List UInt8) (position : Nat) (word : List UInt8) :
    ¬Throws (writeAt memory position word) := by
  unfold writeAt
  split
  · exact not_throws_ok _
  · rintro ⟨type, message, impossible⟩
    cases impossible

theorem newString_not_throws (heap : StringHeap) (flags : StringFlags) (size : Nat)
    (str : ParrotString) : ¬Throws (newString allocator heap flags size str) :=
  not_throws_bind (writeAt_not_throws _ _ _) fun _ => not_throws_ok _

theorem appendString_not_throws (enc : Encoding) :
    ¬Throws (appendString allocator heap enc i k) := by
  refine not_throws_bind (read_not_throws _ _) fun s => ?_
  refine not_throws_bind (read_not_throws _ _) fun t => ?_
  dsimp only
  split
  · exact not_throws_bind (writeAt_not_throws _ _ _) fun _ => not_throws_ok _
  · exact newString_not_throws _ _ _ _

theorem convert_not_throws (found : heap.strings[i]? = some s)
    (spells : Spells order seed (heap.view s) cs) {enc : Encoding}
    (upgrade : enc = .ucs4 ∨ enc = .utf16 ∨ enc = .utf8) :
    ¬Throws (convert order estimate allocator heap enc i) := by
  have characters : ∀ c ∈ cs, IsCharacter c := fun c member => (spells.holds c member).isCharacter
  have holds : ∀ c ∈ cs, enc.Holds c := by
    rcases upgrade with rfl | rfl | rfl <;> exact characters
  have plain : enc = .ucs2 → (heap.view s).encoding ≠ .utf16 := by
    rcases upgrade with rfl | rfl | rfl <;> rintro ⟨⟩
  obtain ⟨str, run, _⟩ := toEncoding_holds spells estimate holds plain
  rw [convert, read_found found, ok_bind, run, ok_bind]
  split
  · exact not_throws_ok _
  · exact newString_not_throws _ _ _ _

theorem concatOperands_not_throws (sound : Sound order seed heap)
    (readsLeft : Reads order seed heap i cs) (readsRight : Reads order seed heap k ds) :
    ¬Throws (concatOperands order estimate allocator heap i k) := by
  obtain ⟨s, foundLeft, spellsLeft⟩ := readsLeft
  obtain ⟨t, foundRight, spellsRight⟩ := readsRight
  rw [concatOperands, read_found foundLeft, ok_bind, read_found foundRight, ok_bind]
  cases repCompatible s t with
  | some enc => exact not_throws_ok _
  | none =>
    dsimp only
    have upgrade := upgradeEncoding_cases s.encoding t.encoding
    rcases @convert_supplies order seed estimate allocator heap i s cs _ sound foundLeft spellsLeft
      upgrade with throws | ⟨first, a, run, _, grows, _⟩
    · exact absurd throws (convert_not_throws foundLeft spellsLeft upgrade)
    rw [run, ok_bind]
    obtain ⟨u, foundAgain, same⟩ := grows.view sound.disciplined foundRight
    rw [← same] at spellsRight
    exact not_throws_bind (convert_not_throws foundAgain spellsRight upgrade)
      fun _ => not_throws_ok _

theorem concatStrings_answers (sound : Sound order seed heap)
    (readsLeft : Reads order seed heap i cs) (readsRight : Reads order seed heap k ds) :
    ∃ heap' j, concatStrings order estimate allocator heap i k = .ok (heap', j) ∧
      Sound order seed heap' ∧ Grows heap heap' ∧ Reads order seed heap' j (cs ++ ds) := by
  have quiet : ¬Throws (concatStrings order estimate allocator heap i k) := by
    refine not_throws_bind (read_not_throws _ _) fun s => ?_
    refine not_throws_bind (read_not_throws _ _) fun t => ?_
    have copied : ∀ j, ¬Throws (strCopy heap j) := fun j =>
      not_throws_bind (read_not_throws _ _) fun _ => not_throws_ok _
    split
    · split
      · exact not_throws_ok _
      · exact copied k
    split
    · exact copied i
    · exact not_throws_bind (concatOperands_not_throws sound readsLeft readsRight)
        fun _ => appendString_not_throws _
  rcases concatStrings_yields sound readsLeft readsRight with
    throws | ⟨heap', j, t, run, later, grows, found, spells⟩
  · exact absurd throws quiet
  · exact ⟨heap', j, run, later, grows, t, found, spells⟩

/-- `Parrot_str_concat`, folded over strings. -/
def concatAll (order : ByteOrder) (estimate : Nat → Nat) (allocator : Allocator)
    (heap : StringHeap) (joined : Nat) : List Nat → Except Fault (StringHeap × Nat)
  | [] => .ok (heap, joined)
  | s :: strings => do
    let (heap, joined) ← concatStrings order estimate allocator heap joined s
    concatAll order estimate allocator heap joined strings

theorem concatAll_reads {strings : List Nat} {pieces : List (List Nat)}
    (sound : Sound order seed heap) (reads : Reads order seed heap i cs)
    (each : List.Forall₂ (Reads order seed heap) strings pieces) :
    ∃ heap' j, concatAll order estimate allocator heap i strings = .ok (heap', j) ∧
      Reads order seed heap' j (cs ++ pieces.flatten) := by
  induction strings generalizing heap i cs pieces with
  | nil =>
    cases each
    rw [flatten_nil, append_nil]
    exact ⟨heap, i, rfl, reads⟩
  | cons k strings ih =>
    cases each with
    | @cons _ ds _ pieces readsHead readsTail =>
      obtain ⟨first, j, run, later, grows, joined⟩ := @concatStrings_answers order seed estimate
        allocator heap i k cs ds sound reads readsHead
      obtain ⟨heap', last, ran, whole⟩ := ih later joined
        (readsTail.imp fun _ _ read => read.grows sound.disciplined grows)
      rw [append_assoc] at whole
      refine ⟨heap', last, ?_, whole⟩
      rw [concatAll, run, ok_bind]
      exact ran

end

end StringHeap

namespace StringBuilder

section

variable (order : ByteOrder) (seed : UInt64) (estimate : Nat → Nat) (allocator : Allocator)
  (b : Nat)

/-- What has been pushed since the last set, before and after a call. -/
inductive Contributes (heap : StringHeap) (pieces : List (List Nat)) : Call → List (List Nat) → Prop
  | null : Contributes heap pieces (.pushString none) pieces
  | string {s : Nat} {cs : List Nat} (other : s ≠ b) (reads : Reads order seed heap s cs) :
      Contributes heap pieces (.pushString (some s)) (pieces ++ [cs])
  | integer {value : Int64} (character : 0 ≤ value.toInt ∧ IsCharacter value.toInt.toNat) :
      Contributes heap pieces (.pushInteger value) (pieces ++ [[value.toInt.toNat]])
  | refused {value : Int64} (other : ¬(0 ≤ value.toInt ∧ IsCharacter value.toInt.toNat)) :
      Contributes heap pieces (.pushInteger value) pieces
  | set {s : Nat} {cs : List Nat} (other : s ≠ b) (reads : Reads order seed heap s cs) :
      Contributes heap pieces (.setStringNative s) [cs]
  | get : Contributes heap pieces .getString pieces

/-- Sequences of calls on one builder. -/
inductive Runs (start : StringHeap) (first : List (List Nat)) : StringHeap → List (List Nat) → Prop
  | refl : Runs start first start first
  | call {heap : StringHeap} {pieces pieces' : List (List Nat)} {call : Call}
      (before : Runs start first heap pieces)
      (contributes : Contributes order seed b heap pieces call pieces') :
      Runs start first (call.run order estimate allocator heap b).1 pieces'

/-- A string with these code points in storage that fits. -/
def Delivers (heap : StringHeap) (k : Nat) (cs : List Nat) : Prop :=
  ∃ t, heap.strings[k]? = some t ∧ Spells order seed (heap.view t) cs ∧
    t.bufused = ((codeOf order t.encoding).text cs).length ∧ t.strlen = cs.length ∧
    t.strstart + t.bufused ≤ (heap.bufferAt t.bufstart).length

/-- What a call answers, in the heap that it leaves. -/
def Answers (heap : StringHeap) (pieces : List (List Nat)) (answer : Except Fault (Option Nat)) :
    Call → Prop
  | .pushString _ | .setStringNative _ => answer = .ok none
  | .pushInteger value =>
    if 0 ≤ value.toInt ∧ IsCharacter value.toInt.toNat then answer = .ok none else Throws answer
  | .getString => ∃ k, answer = .ok (some k) ∧ k ≠ b ∧ Delivers order seed heap k pieces.flatten

end

section

variable {order : ByteOrder} {seed : UInt64} {estimate : Nat → Nat} {allocator : Allocator}
  {heap heap' : StringHeap} {b : Nat} {s : StringHeader} {cs : List Nat}
  {pieces pieces' : List (List Nat)}

theorem delivers (sound : Sound order seed heap) {k : Nat} {t : StringHeader}
    (found : heap.strings[k]? = some t) (spells : Spells order seed (heap.view t) cs) :
    Delivers order seed heap k cs := by
  have bytes : (heap.view t).bytes = (codeOf order t.encoding).text cs := spells.bytes
  refine ⟨t, found, spells, ?_, spells.strlen, ?_⟩
  · rw [← sound.bufused found, bytes]
  · exact sound.disciplined.fits t.window (mem_of_getElem? (getElem?_shared found))

theorem call_spec (builds : Builds order seed heap b s pieces.flatten) {call : Call}
    (contributes : Contributes order seed b heap pieces call pieces') :
    ∃ s', Builds order seed (call.run order estimate allocator heap b).1 b s' pieces'.flatten ∧
      Leaves b heap (call.run order estimate allocator heap b).1 ∧
      Answers order seed b (call.run order estimate allocator heap b).1 pieces'
        (call.run order estimate allocator heap b).2 call := by
  cases contributes with
  | null => exact ⟨s, builds, Leaves.refl b heap, rfl⟩
  | @string i cs other reads =>
    obtain ⟨heap', s', run, built, leaves⟩ := @pushString_spec order seed estimate allocator heap
      b s pieces.flatten cs builds i other reads
    rw [flatten_append, flatten_singleton, Call.run, run]
    exact ⟨s', built, leaves, rfl⟩
  | @integer value character =>
    obtain ⟨heap', s', run, leaves, spec⟩ := @pushInteger_spec order seed estimate allocator heap
      b s pieces.flatten builds value
    rcases spec with ⟨_, answered, built⟩ | ⟨refused, _, _⟩
    · rw [flatten_append, flatten_singleton, Call.run, Answers, if_pos character]
      dsimp only
      rw [run, answered]
      exact ⟨s', built, leaves, rfl⟩
    · exact absurd character refused
  | @refused value other =>
    obtain ⟨heap', s', run, leaves, spec⟩ := @pushInteger_spec order seed estimate allocator heap
      b s pieces.flatten builds value
    rcases spec with ⟨character, _, _⟩ | ⟨_, ⟨type, message, thrown⟩, built⟩
    · exact absurd character other
    rw [Call.run, Answers, if_neg other]
    dsimp only
    rw [run, thrown]
    exact ⟨s', built, leaves, type, message, rfl⟩
  | @set i cs other reads =>
    obtain ⟨heap', s', run, built, leaves⟩ := @setStringNative_spec order seed allocator heap b s
      pieces.flatten cs builds i other reads
    rw [flatten_singleton, Call.run, run]
    exact ⟨s', built, leaves, rfl⟩
  | get =>
    obtain ⟨heap', k, t, run, built, leaves, apart, found, spells⟩ := @getString_spec order seed
      allocator heap b s pieces.flatten builds
    rw [Call.run, run]
    exact ⟨s, built, leaves, k, rfl, apart, delivers built.sound found spells⟩

theorem runs_spec (builds : Builds order seed heap b s pieces.flatten)
    (runs : Runs order seed estimate allocator b heap pieces heap' pieces') :
    (∃ s', Builds order seed heap' b s' pieces'.flatten) ∧ Leaves b heap heap' := by
  induction runs with
  | refl => exact ⟨⟨s, builds⟩, Leaves.refl b heap⟩
  | call _ contributes ih =>
    obtain ⟨⟨s', built⟩, leaves⟩ := ih
    obtain ⟨s'', after, later, _⟩ := call_spec built contributes
    exact ⟨⟨s'', after⟩, leaves.trans later⟩

theorem initInt_spec (sound : Sound order seed heap) (defaultEncoding : Encoding)
    (initialSize : Int) :
    ∃ s, Builds order seed (initInt allocator defaultEncoding heap initialSize).1
        (initInt allocator defaultEncoding heap initialSize).2 s [] ∧
      Leaves (initInt allocator defaultEncoding heap initialSize).2 heap
        (initInt allocator defaultEncoding heap initialSize).1 := by
  generalize size : (if initialSize < initialStringCapacity then initialStringCapacity
    else initialSize.toNat) = capacity
  have run : initInt allocator defaultEncoding heap initialSize =
      newOver heap .none (allocate allocator heap capacity) 0 defaultEncoding 0 := by
    rw [← size]
    rfl
  rw [run, newOver, newHeader]
  have nothing := @spells_nothing order seed defaultEncoding
  have spells : Spells order seed ⟨defaultEncoding,
      ((allocate allocator heap capacity).drop 0).take 0, 0, 0⟩ [] := nothing
  have yields := @yields_fresh order seed heap [] sound (allocate allocator heap capacity)
    ⟨.none, heap.buffers.length, 0, 0, defaultEncoding, 0, 0⟩ (Spells order seed · []) rfl
    (Nat.zero_le _) spells spells
  rcases yields with ⟨_, _, thrown⟩ | ⟨heap', i, t, made, later, grows, found, shows⟩
  · cases thrown
  have nonempty : 0 < heap.strings.length := by
    obtain ⟨t, there, _⟩ := sound.empty
    exact (List.getElem?_eq_some_iff.mp there).1
  cases made
  have new := getElem?_newHeader heap.strings
    ⟨.none, heap.buffers.length, 0, 0, defaultEncoding, 0, 0⟩
  cases new.symm.trans found
  refine ⟨_, ⟨later, new, shows, rfl, rfl, ?_, nonempty.ne'⟩, ?_⟩
  · intro j w other there
    rw [shared, map_append] at there
    rcases SharedBuffers.getElem?_append_singleton there with old | ⟨last, -⟩
    · exact sound.disciplined.alone_new _ j w other old
    · rw [length_map] at last
      exact absurd last other
  · exact fun j u _ there => grows.append sound.disciplined rfl there

/-- Whatever has been called on a builder, `get_string` answers with the concatenation of what was
pushed since the last set; strings answered earlier stay as they are, the buffer is never fuller
than it is long, and folding `Parrot_str_concat` over the same pieces gives the same code points. -/
theorem builder_concatenates {first : StringHeap}
    (reached : StringRuns order estimate allocator initial first) (defaultEncoding : Encoding)
    (initialSize : Int) (made : initInt allocator defaultEncoding first initialSize = (heap, b))
    (runs : Runs order seed estimate allocator b heap [] heap' pieces) :
    (∃ answered k, Call.run order estimate allocator heap' b .getString = (answered, .ok (some k)) ∧
      Delivers order seed answered k pieces.flatten) ∧ (∀ (call : Call) (pieces' : List (List Nat)),
      Contributes order seed b heap' pieces call pieces' →
        Answers order seed b (call.run order estimate allocator heap' b).1 pieces'
          (call.run order estimate allocator heap' b).2 call) ∧
    (∀ (later : StringHeap) (pieces' : List (List Nat)),
      Runs order seed estimate allocator b heap' pieces later pieces' →
        ∀ (i : Nat) (cs : List Nat), i ≠ b → Delivers order seed heap' i cs →
          Delivers order seed later i cs) ∧ Delivers order seed heap' b pieces.flatten ∧
    (∀ (other : StringHeap) (strings : List Nat), Sound order seed other →
      List.Forall₂ (Reads order seed other) strings pieces →
        ∃ last k, concatAll order estimate allocator other 0 strings = .ok (last, k) ∧
          Reads order seed last k pieces.flatten) := by
  have start := @initInt_spec order seed allocator first (reached.grows sound_initial).1
    defaultEncoding initialSize
  rw [made] at start
  obtain ⟨s, built, _⟩ := start
  obtain ⟨⟨s', builds⟩, _⟩ := runs_spec built runs
  refine ⟨?_, ?_, ?_, delivers builds.sound builds.found builds.spells, ?_⟩
  · obtain ⟨_, _, _, k, answered, _, delivered⟩ := @call_spec order seed estimate allocator heap'
      b s' pieces pieces builds _ Contributes.get
    exact ⟨_, k, Prod.ext rfl answered, delivered⟩
  · intro call pieces' contributes
    obtain ⟨_, _, _, answers⟩ := @call_spec order seed estimate allocator heap' b s' pieces pieces'
      builds call contributes
    exact answers
  · rintro later pieces' more i cs other ⟨t, found, spells, _⟩
    obtain ⟨⟨_, after⟩, leaves⟩ := runs_spec builds more
    have left := leaves i t other found
    rw [← left.2] at spells
    exact delivers after.sound left.1 spells
  · intro there strings sound each
    exact concatAll_reads sound sound.empty each

def abHeap : StringHeap :=
  ⟨[[], [97, 98, 0, 0, 0, 0, 0, 0]], [emptyHeader, ⟨.none, 1, 0, 2, .ascii, 2, 0⟩]⟩

/-- "ab" is pushed, then the code point of the euro sign. -/
theorem builder_concatenates_euro : ∃ heap answered k,
    Call.run .little id alignedAllocator heap 2 .getString = (answered, .ok (some k)) ∧
      Delivers .little 0 answered k [97, 98, 0x20AC] := by
  have reached : StringRuns .little id alignedAllocator initial abHeap :=
    @StringRuns.call _ _ _ _ _ _ (.newInit [97, 98] .ascii .none) _ .refl ⟨nofun, trivial⟩ rfl
  have start : initInt alignedAllocator .ascii abHeap 0 =
      ((initInt alignedAllocator .ascii abHeap 0).1, 2) := rfl
  have small : ∀ c ∈ [97, 98], c < 0x80 := by decide
  have ab : Reads .little 0 (initInt alignedAllocator .ascii abHeap 0).1 1 [97, 98] :=
    ⟨⟨.none, 1, 0, 2, .ascii, 2, 0⟩, rfl, ⟨small, rfl, rfl, .inl rfl⟩⟩
  have pushed : Contributes .little 0 2 (initInt alignedAllocator .ascii abHeap 0).1 []
      (.pushString (some 1)) [[97, 98]] := .string (by decide) ab
  have character : 0 ≤ (0x20AC : Int64).toInt ∧ IsCharacter (0x20AC : Int64).toInt.toNat := by
    decide
  have none := @Runs.refl .little 0 id alignedAllocator 2
    (initInt alignedAllocator .ascii abHeap 0).1 []
  have runs := (none.call pushed).call (Contributes.integer character)
  exact ⟨_, (builder_concatenates reached .ascii 0 start runs).1⟩

end

end StringBuilder

end RakudoStar.Strings
