import RakudoStar.Strings.BuilderRuns
import RakudoStar.Strings.Search

/-!
# Splitting and joining

`split` cuts a string at the leftmost places of the delimiter.  `join` pushes the parts into a
string builder, as many of them as an `int` counts.
-/

namespace RakudoStar.Strings

open Foundation StringHeap List RakudoStar.Except

section

variable (order : ByteOrder) (src delim : ParrotString) (str : Nat)

/-- The loop of `Parrot_str_split` for an empty delimiter, with the number of code points that are
left. -/
def splitCharacters : Nat → StringHeap → StringIter → Except Fault (StringHeap × List Nat)
  | 0, heap, _ => .ok (heap, [])
  | left + 1, heap, oldIter => do
    let iter ← iterSkipOf order src oldIter 1
    let (heap, tstr) ← strIterSubstr heap str oldIter (some iter)
    if iter.charpos < src.strlen then do
      let (heap, res) ← splitCharacters left heap iter
      .ok (heap, tstr :: res)
    else .ok (heap, [tstr])

/-- The loop for other delimiters; the last iterator is behind the last one. -/
def splitLoop : Nat → StringHeap → StringIter → Except Fault (StringHeap × List Nat × StringIter)
  | 0, heap, iter => .ok (heap, [], iter)
  | left + 1, heap, iter => do
    let found ← strIterIndex order src iter delim
    match found with
    | none => .ok (heap, [], iter)
    | some (start, stop) => do
      let (heap, tstr) ← strIterSubstr heap str iter (some start)
      if stop.charpos < src.strlen then do
        let (heap, res, last) ← splitLoop left heap stop
        .ok (heap, tstr :: res, last)
      else .ok (heap, [tstr], stop)

end

/-- `Parrot_str_split` of strings that are not `STRINGNULL`. -/
def strSplit (order : ByteOrder) (heap : StringHeap) (delim str : Nat) :
    Except Fault (StringHeap × List Nat) := do
  let d ← read heap.strings delim
  let s ← read heap.strings str
  if s.strlen = 0 then .ok (heap, [])
  else if d.strlen = 0 then splitCharacters order (heap.view s) str s.strlen heap .init
  else do
    let (heap, res, iter) ←
      splitLoop order (heap.view s) (heap.view d) str s.strlen heap .init
    let (heap, tstr) ← strIterSubstr heap str iter none
    .ok (heap, res ++ [tstr])

section

variable (order : ByteOrder) (estimate : Nat → Nat) (allocator : Allocator)

/-- A string that is pushed into a builder under a condition. -/
def pushIf (condition : Prop) [Decidable condition] (heap : StringHeap) (sb s : Nat) :
    Except Fault StringHeap :=
  if condition then StringBuilder.pushString order estimate allocator heap sb s else .ok heap

/-- The loop of `Parrot_str_join` over the parts behind the first one. -/
def joinLoop (sb j jLength : Nat) : List Nat → StringHeap → Except Fault StringHeap
  | [], heap => .ok heap
  | part :: parts, heap => do
    let t ← read heap.strings part
    let heap ← pushIf order estimate allocator (jLength ≠ 0) heap sb j
    let heap ← pushIf order estimate allocator (t.strlen ≠ 0) heap sb part
    joinLoop sb j jLength parts heap

/-- `const int count = VTABLE_elements(interp, ar)` -/
def countOf (elements : Nat) : Int := (elements : Int).bmod (2 ^ 32)

/-- `Parrot_str_join` with a delimiter that is not `STRINGNULL`. -/
def strJoin (defaultEncoding : Encoding) (heap : StringHeap) (j : Nat) (ar : List Nat) :
    Except Fault (StringHeap × Nat) :=
  let count := countOf ar.length
  if count = 0 then strNewNoinit allocator heap 0
  else do
    let first ← read ar 0
    let f ← read heap.strings first
    let d ← read heap.strings j
    let (heap, sb) := StringBuilder.initInt allocator defaultEncoding heap
      (((f.bufused + d.bufused : Nat) : Int) * count)
    let heap ← StringBuilder.pushString order estimate allocator heap sb first
    let heap ← joinLoop order estimate allocator sb j d.bufused
      ((ar.drop 1).take (count - 1).toNat) heap
    StringBuilder.getString allocator heap sb

end

section

variable {order : ByteOrder} {seed : UInt64} {estimate : Nat → Nat} {allocator : Allocator}
  {heap : StringHeap} {src delim : ParrotString} {str i : Nat} {s : StringHeader}
  {cs ds : List Nat} {pieces : List (List Nat)} {strings : List Nat}

/-- What cutting a string needs: its heap and its code points. -/
structure Cuts (order : ByteOrder) (seed : UInt64) (heap : StringHeap) (str : Nat)
    (s : StringHeader) (src : ParrotString) (cs : List Nat) : Prop where
  sound : Sound order seed heap
  found : heap.strings[str]? = some s
  shows : heap.view s = src
  spells : Spells order seed src cs

section
variable (cuts : Cuts order seed heap str s src cs)
include cuts

theorem Cuts.window {k stop : Nat} (ordered : k ≤ stop) (inside : stop ≤ cs.length) :
    ∃ heap' i, strIterSubstr heap str (stringIterAt order src.encoding cs k)
        (some (stringIterAt order src.encoding cs stop)) = .ok (heap', i) ∧
      Cuts order seed heap' str s src cs ∧ Grows heap heap' ∧
        Reads order seed heap' i ((cs.drop k).take (stop - k)) := by
  have spells := cuts.spells
  rw [← cuts.shows] at spells
  rcases windowOf_boundaries cuts.sound cuts.found spells ordered inside with
    ⟨_, _, thrown⟩ | ⟨heap', i, t, made, sound, grows, new, shown⟩
  · cases thrown
  cases made
  obtain ⟨there, same⟩ := grows.append cuts.sound.disciplined rfl cuts.found
  refine ⟨_, _, ?_, ⟨sound, there, same.trans cuts.shows, cuts.spells⟩, grows, t, new, shown⟩
  rw [← cuts.shows, strIterSubstr, read_found cuts.found]
  rfl

theorem Cuts.rest {k : Nat} (inside : k ≤ cs.length) :
    ∃ heap' i, strIterSubstr heap str (stringIterAt order src.encoding cs k) none =
        .ok (heap', i) ∧ Sound order seed heap' ∧ Grows heap heap' ∧
        Reads order seed heap' i (cs.drop k) := by
  have spells := cuts.spells
  rw [← cuts.shows] at spells
  have whole := windowOf_boundaries cuts.sound cuts.found spells inside le_rfl
  have strlen : s.strlen = cs.length := spells.strlen
  have all : (cs.drop k).take (cs.length - k) = cs.drop k := by
    rw [← length_drop, take_length]
  rw [← cuts.sound.bufused_eq cuts.found spells, ← strlen, strlen, all] at whole
  rcases whole with ⟨_, _, thrown⟩ | ⟨heap', i, t, made, sound, grows, new, shown⟩
  · cases thrown
  refine ⟨heap', i, ?_, sound, grows, t, new, shown⟩
  rw [← cuts.shows, strIterSubstr, read_found cuts.found, ← made, ok_bind, strlen]
  rfl

theorem Cuts.charpos_lt_iff (k : Nat) :
    (stringIterAt order src.encoding cs k).charpos < src.strlen ↔ k < cs.length := by
  rw [cuts.spells.strlen]
  rfl

end

/-- The strings of a list hold these code points. -/
def ReadsAll (order : ByteOrder) (seed : UInt64) (heap : StringHeap) (strings : List Nat)
    (pieces : List (List Nat)) : Prop :=
  List.Forall₂ (Reads order seed heap) strings pieces

theorem ReadsAll.leaves {heap' : StringHeap}
    {b : Nat} (reads : ReadsAll order seed heap strings pieces)
    (leaves : StringBuilder.Leaves b heap heap')
    (others : ∀ i ∈ strings, i ≠ b) : ReadsAll order seed heap' strings pieces := by
  induction reads with
  | nil => exact .nil
  | @cons i piece strings pieces read _ ih =>
    exact .cons (leaves.reads (others i mem_cons_self) read) (ih (forall_mem_cons.mp others).2)

theorem ReadsAll.reads (reads : ReadsAll order seed heap strings pieces) (member : i ∈ strings) :
    ∃ piece, Reads order seed heap i piece := by
  induction reads with
  | nil => cases member
  | @cons j piece strings pieces read _ ih =>
    rcases mem_cons.mp member with rfl | later
    · exact ⟨piece, read⟩
    · exact ih later

theorem splitCharacters_spec {left k : Nat} (cuts : Cuts order seed heap str s src cs)
    (total : k + left = cs.length) (some_ : 0 < left) :
    ∃ heap' res, splitCharacters order src str left heap (stringIterAt order src.encoding cs k) =
        .ok (heap', res) ∧ Sound order seed heap' ∧ Grows heap heap' ∧
        ReadsAll order seed heap' res ((cs.drop k).map fun c => [c]) := by
  induction left generalizing heap k with
  | zero => exact absurd some_ (lt_irrefl 0)
  | succ left ih =>
    have inside : k < cs.length := by omega
    have skipped : iterSkipOf order src (stringIterAt order src.encoding cs k) 1 =
        .ok (stringIterAt order src.encoding cs (k + 1)) :=
      iterSkipOf_at cuts.spells (show (0 : Int) ≤ (k : Int) + 1 by omega) inside.le
        (show (k : Int) + 1 ≤ cs.length by omega)
    obtain ⟨first, i, run, cutsFirst, grows, reads⟩ := cuts.window (Nat.le_succ k) inside
    have here : cs.drop k = cs[k] :: cs.drop (k + 1) := drop_eq_getElem_cons inside
    have single : (cs.drop k).take (k + 1 - k) = [cs[k]] := by
      rw [Nat.add_sub_cancel_left, here, take_succ_cons, take_zero]
    rw [single] at reads
    rw [splitCharacters, skipped, ok_bind, run, ok_bind, here, map_cons]
    dsimp only
    by_cases more : k + 1 < cs.length
    · obtain ⟨heap', res, ran, sound, later, readsRest⟩ := ih cutsFirst
        (show k + 1 + left = cs.length by omega) (by omega)
      rw [if_pos ((cuts.charpos_lt_iff (k + 1)).mpr more), ran, ok_bind]
      exact ⟨heap', i :: res, rfl, sound, grows.trans later,
        .cons (reads.grows cutsFirst.sound.disciplined later) readsRest⟩
    · have last : cs.drop (k + 1) = [] := drop_eq_nil_of_le (Nat.le_of_not_lt more)
      rw [if_neg (fun inside => more ((cuts.charpos_lt_iff (k + 1)).mp inside)), last]
      exact ⟨first, [i], rfl, cutsFirst.sound, grows, .cons reads .nil⟩

theorem splitLoop_spec {left k : Nat} (cuts : Cuts order seed heap str s src cs)
    (spellsDelim : Spells order seed delim ds) (nonempty : ds ≠ []) (inside : k ≤ cs.length)
    (enough : cs.length - k ≤ left) (some_ : 0 < left) : ∃ heap' heap'' res stop i places,
      splitLoop order src delim str left heap (stringIterAt order src.encoding cs k) =
        .ok (heap', res, stop) ∧
      strIterSubstr heap' str stop none = .ok (heap'', i) ∧ Sound order seed heap'' ∧
      Grows heap heap'' ∧ Leftmost ds cs k places ∧
      ReadsAll order seed heap'' (res ++ [i]) (partsBetween cs ds.length k places) := by
  induction left generalizing heap k with
  | zero => exact absurd some_ (lt_irrefl 0)
  | succ left ih =>
    have positive := length_pos_of_ne_nil nonempty
    obtain ⟨found, run, spec⟩ := strIterIndex_spec cuts.spells spellsDelim k
    rw [splitLoop, run, ok_bind]
    cases spec with
    | none nowhere =>
      obtain ⟨heap', i, rest, sound, grows, reads⟩ := cuts.rest inside
      exact ⟨heap, heap', [], _, i, [], rfl, rest, sound, grows, .none nowhere, .cons reads .nil⟩
    | found p atLeast here before =>
      have fits := here.fits nonempty
      obtain ⟨first, t, cut, cutsFirst, grows, reads⟩ := cuts.window atLeast (by omega)
      dsimp only
      rw [cut, ok_bind]
      by_cases more : p + ds.length < cs.length
      · obtain ⟨heap', heap'', res, stop, i, places, ran, rest, sound, later, leftmost,
            readsRest⟩ := ih cutsFirst fits (by omega) (by omega)
        rw [if_pos ((cuts.charpos_lt_iff _).mpr more), ran, ok_bind]
        exact ⟨heap', heap'', t :: res, stop, i, p :: places, rfl, rest, sound,
          grows.trans later, .next atLeast here before leftmost,
          .cons (reads.grows cutsFirst.sound.disciplined later) readsRest⟩
      have nowhere : ∀ q, p + ds.length ≤ q → ¬Occurs ds cs q := by
        intro q behind occurs
        have beyond := occurs.fits nonempty
        omega
      obtain ⟨heap', i, rest, sound, later, readsRest⟩ := cutsFirst.rest fits
      rw [if_neg fun inside => more ((cuts.charpos_lt_iff _).mp inside)]
      exact ⟨first, heap', [t], _, i, [p], rfl, rest, sound, grows.trans later,
        .next atLeast here before (.none nowhere),
        .cons (reads.grows cutsFirst.sound.disciplined later) (.cons readsRest .nil)⟩

/-- The code points, or what lies between the leftmost delimiters. -/
def IsSplit (ds cs : List Nat) (pieces : List (List Nat)) : Prop :=
  if ds = [] then pieces = cs.map fun c => [c]
  else ∃ places, Leftmost ds cs 0 places ∧ pieces = partsBetween cs ds.length 0 places

theorem strSplit_spec {delim : Nat} (sound : Sound order seed heap)
    (reads : Reads order seed heap str cs) (readsDelim : Reads order seed heap delim ds)
    (nonempty : cs ≠ []) : ∃ heap' res pieces, strSplit order heap delim str = .ok (heap', res) ∧
      Sound order seed heap' ∧ Grows heap heap' ∧ ReadsAll order seed heap' res pieces ∧
      IsSplit ds cs pieces := by
  obtain ⟨s, found, spells⟩ := reads
  obtain ⟨d, foundDelim, spellsDelim⟩ := readsDelim
  have strlen : s.strlen = cs.length := spells.strlen
  have strlenDelim : d.strlen = ds.length := spellsDelim.strlen
  have positive := length_pos_of_ne_nil nonempty
  have cuts : Cuts order seed heap str s (heap.view s) cs := ⟨sound, found, rfl, spells⟩
  rw [strSplit, read_found foundDelim, ok_bind, read_found found, ok_bind, strlen,
    strlenDelim, if_neg positive.ne']
  by_cases empty : ds = []
  · obtain ⟨heap', res, run, later, grows, readsAll⟩ := splitCharacters_spec cuts
      (zero_add cs.length) positive
    rw [if_pos (length_eq_zero_iff.mpr empty)]
    refine ⟨heap', res, _, run, later, grows, readsAll, ?_⟩
    rw [IsSplit, if_pos empty, drop_zero]
  obtain ⟨heap', heap'', res, stop, i, places, run, rest, later, grows, leftmost, readsAll⟩ :=
    splitLoop_spec cuts spellsDelim empty (Nat.zero_le _) (Nat.sub_le _ _) positive
  have start : stringIterAt order (heap.view s).encoding cs 0 = .init := rfl
  rw [start] at run
  rw [if_neg (fun none => empty (length_eq_zero_iff.mp none)), run, ok_bind]
  dsimp only
  rw [rest, ok_bind]
  refine ⟨heap'', res ++ [i], _, rfl, later, grows, readsAll, ?_⟩
  rw [IsSplit, if_neg empty]
  exact ⟨places, leftmost, rfl⟩

open StringBuilder in
theorem pushIf_spec {b : Nat} (builds : Builds order seed heap b s cs) {i : Nat} (other : i ≠ b)
    (reads : Reads order seed heap i ds) {condition : Prop} [Decidable condition]
    (empty : ¬condition → ds = []) :
    ∃ heap' s', pushIf order estimate allocator condition heap b i = .ok heap' ∧
      Builds order seed heap' b s' (cs ++ ds) ∧ Leaves b heap heap' := by
  rw [pushIf]
  by_cases pushed : condition
  · rw [if_pos pushed]
    exact pushString_spec builds other reads
  · rw [if_neg pushed, empty pushed, append_nil]
    exact ⟨heap, s, rfl, builds, Leaves.refl b heap⟩

open StringBuilder in
theorem joinLoop_spec {b j jLength : Nat} {parts : List Nat} {pieces : List (List Nat)}
    (builds : Builds order seed heap b s cs) (otherDelim : j ≠ b)
    (readsDelim : Reads order seed heap j ds) (empty : jLength = 0 → ds = [])
    (others : ∀ part ∈ parts, part ≠ b) (reads : ReadsAll order seed heap parts pieces) :
    ∃ heap' s', joinLoop order estimate allocator b j jLength parts heap = .ok heap' ∧
      Builds order seed heap' b s' (cs ++ pieces.flatMap (ds ++ ·)) := by
  induction parts generalizing heap s cs pieces with
  | nil =>
    cases reads
    rw [flatMap_nil, append_nil]
    exact ⟨heap, s, rfl, builds⟩
  | cons part parts ih =>
    cases reads with
    | @cons _ piece _ pieces readsPart readsRest =>
      have other := others part mem_cons_self
      obtain ⟨t, found, spells⟩ := readsPart
      have strlen : t.strlen = piece.length := spells.strlen
      obtain ⟨first, u, pushed, built, leaves⟩ := @pushIf_spec order seed estimate allocator
        heap s cs ds b builds j otherDelim readsDelim (jLength ≠ 0) _
        fun none => empty (Decidable.not_not.mp none)
      have readsPart : Reads order seed first part piece := leaves.reads other ⟨t, found, spells⟩
      obtain ⟨second, v, pushedPart, builtPart, leavesPart⟩ := @pushIf_spec order seed estimate
        allocator first u _ piece b built part other readsPart (t.strlen ≠ 0) _
        fun none => length_eq_zero_iff.mp (strlen.symm.trans (Decidable.not_not.mp none))
      have through := leaves.trans leavesPart
      obtain ⟨heap', w, ran, after⟩ := ih builtPart
        (through.reads otherDelim readsDelim)
        (forall_mem_cons.mp others).2
        (ReadsAll.leaves readsRest through (forall_mem_cons.mp others).2)
      refine ⟨heap', w, ?_, ?_⟩
      · rw [joinLoop, read_found found, ok_bind, pushed, ok_bind, pushedPart, ok_bind]
        exact ran
      · rw [flatMap_cons, ← append_assoc, ← append_assoc]
        exact after

/-- How many parts `join` puts together. -/
def joinedCount (elements : Nat) : Nat :=
  if countOf elements = 0 then 0 else 1 + (countOf elements - 1).toNat

theorem lt_strings (reads : Reads order seed heap str cs) : str < heap.strings.length := by
  obtain ⟨_, found, _⟩ := reads
  exact (List.getElem?_eq_some_iff.mp found).1

open StringBuilder in
theorem strJoin_spec {j : Nat} {ar : List Nat} {pieces : List (List Nat)}
    (sound : Sound order seed heap) (readsDelim : Reads order seed heap j ds)
    (reads : ReadsAll order seed heap ar pieces) (defaultEncoding : Encoding) :
    ∃ heap' k, strJoin order estimate allocator defaultEncoding heap j ar = .ok (heap', k) ∧
      Reads order seed heap' k (ds.intercalate (pieces.take (joinedCount pieces.length))) := by
  have length : ar.length = pieces.length := reads.length_eq
  rw [strJoin, joinedCount, length]
  by_cases none : countOf pieces.length = 0
  · rw [if_pos none, if_pos none, take_zero, intercalate_nil]
    rcases @strNewNoinit_yields order seed allocator heap sound 0 with
      throws | ⟨heap', k, t, run, _, _, found, spells⟩
    · exact absurd throws (newString_not_throws _ _ _ _)
    · exact ⟨heap', k, run, t, found, spells⟩
  rw [if_neg none, if_neg none]
  cases reads with
  | nil => exact absurd rfl none
  | @cons first piece parts pieces readsFirst readsRest =>
    obtain ⟨f, foundFirst, spellsFirst⟩ := readsFirst
    obtain ⟨d, foundDelim, spellsDelim⟩ := readsDelim
    generalize size : ((f.bufused + d.bufused : Nat) : Int) *
      countOf (piece :: pieces).length = initialSize
    obtain ⟨u, built, leaves⟩ := @initInt_spec order seed allocator heap sound defaultEncoding
      initialSize
    have number : (initInt allocator defaultEncoding heap initialSize).2 =
        heap.strings.length := rfl
    cases made : initInt allocator defaultEncoding heap initialSize with
    | mk start sb =>
      rw [made] at built leaves number
      dsimp only at built leaves number
      -- the buffer of the builder is none of the strings
      have apart : ∀ {i : Nat} {es : List Nat}, Reads order seed heap i es → i ≠ sb := by
        intro i es read
        rw [number]
        exact ne_of_lt (lt_strings read)
      have otherDelim := apart ⟨d, foundDelim, spellsDelim⟩
      have otherFirst := apart ⟨f, foundFirst, spellsFirst⟩
      have others : ∀ part ∈ (parts.take (countOf (piece :: pieces).length - 1).toNat),
          part ≠ sb := by
        intro part member
        obtain ⟨es, read⟩ := ReadsAll.reads readsRest (mem_of_mem_take member)
        exact apart read
      have readsStart := leaves.reads otherDelim ⟨d, foundDelim, spellsDelim⟩
      obtain ⟨second, v, pushed, builtSecond, leavesSecond⟩ := @pushString_spec order seed
        estimate allocator start sb u [] piece built first otherFirst
        (leaves.reads otherFirst ⟨f, foundFirst, spellsFirst⟩)
      have through := leaves.trans leavesSecond
      have taken : ReadsAll order seed second
          (parts.take (countOf (piece :: pieces).length - 1).toNat)
          (pieces.take (countOf (piece :: pieces).length - 1).toNat) := by
        apply ReadsAll.leaves _ through others
        exact forall₂_take _ readsRest
      have silent : d.bufused = 0 → ds = [] := by
        intro empty
        apply codes_of_empty spellsDelim
        rw [sound.bufused foundDelim, empty]
      obtain ⟨third, w, looped, builtThird⟩ := @joinLoop_spec order seed estimate allocator
        second v _ ds sb j d.bufused _ _ builtSecond otherDelim
        (leavesSecond.reads otherDelim readsStart) silent others taken
      obtain ⟨heap', k, t, got, _, _, _, found, spells⟩ := @getString_spec order seed
        allocator third sb w _ builtThird
      refine ⟨heap', k, ?_, t, found, ?_⟩
      · have firstRead : Strings.read (first :: parts) 0 = .ok first := rfl
        rw [firstRead, ok_bind, read_found foundFirst, ok_bind,
          read_found foundDelim, ok_bind, size, made]
        dsimp only
        rw [pushed, ok_bind, drop_one, tail_cons, looped, ok_bind]
        exact got
      · rw [add_comm, take_succ_cons, intercalate_cons_eq]
        exact spells

/-- An `int` counts fewer than 2^31 parts right, and never as many as there are otherwise. -/
theorem joinedCount_spec (elements : Nat) : elements < 2 ^ 31 ∧ joinedCount elements = elements ∨
      2 ^ 31 ≤ elements ∧ joinedCount elements < elements := by
  have count : countOf elements = if (elements : Int) % 2 ^ 32 < 2 ^ 31 then
      (elements : Int) % 2 ^ 32 else (elements : Int) % 2 ^ 32 - 2 ^ 32 := Int.bmod_def _ _
  rw [joinedCount, count]
  split <;> split <;> omega

theorem intercalate_singletons (cs : List Nat) :
    List.intercalate [] (cs.map fun c => [c]) = cs := by
  cases cs with
  | nil => rfl
  | cons c cs =>
    have rest : (cs.map fun c => [c]).flatMap (([] : List Nat) ++ ·) = cs := by
      simp [flatMap_map]
    rw [map_cons, intercalate_cons_eq, rest]
    rfl

theorem IsSplit.intercalate (split : IsSplit ds cs pieces) : ds.intercalate pieces = cs := by
  by_cases empty : ds = []
  · rw [IsSplit, if_pos empty] at split
    rw [split, empty, intercalate_singletons]
  rw [IsSplit, if_neg empty] at split
  obtain ⟨places, leftmost, rfl⟩ := split
  rw [leftmost.intercalate_partsBetween, drop_zero]

def PiecesExact (ds cs : List Nat) (pieces : List (List Nat)) : Prop :=
  (ds = [] → pieces = cs.map fun c => [c]) ∧
    (ds ≠ [] → (∀ piece ∈ pieces, ∀ p, ¬Occurs ds piece p) ∧
      ∃ places, Leftmost ds cs 0 places ∧ pieces.length = places.length + 1)

theorem IsSplit.exact (split : IsSplit ds cs pieces) : PiecesExact ds cs pieces := by
  constructor
  · intro empty
    rw [IsSplit, if_pos empty] at split
    exact split
  intro nonempty
  rw [IsSplit, if_neg nonempty] at split
  obtain ⟨places, leftmost, rfl⟩ := split
  exact ⟨fun piece member p => leftmost.partsBetween_without nonempty member p, places, leftmost,
    length_partsBetween _ _ _ _⟩

def FewPieces (ds cs : List Nat) : Prop :=
  if ds = [] then cs.length < 2 ^ 31
  else ∀ places, Leftmost ds cs 0 places → places.length + 1 < 2 ^ 31

theorem IsSplit.few_iff (split : IsSplit ds cs pieces) :
    FewPieces ds cs ↔ pieces.length < 2 ^ 31 := by
  by_cases empty : ds = []
  · rw [IsSplit, if_pos empty] at split
    rw [FewPieces, if_pos empty, split, length_map]
  rw [IsSplit, if_neg empty] at split
  obtain ⟨places, leftmost, rfl⟩ := split
  rw [FewPieces, if_neg empty, length_partsBetween]
  constructor
  · intro few
    exact few places leftmost
  intro few others again
  rw [← leftmost.unique again]
  exact few

theorem IsSplit.length_lt (split : IsSplit ds cs pieces)
    (nonempty : cs ≠ []) {count : Nat} (fewer : count < pieces.length) :
    (ds.intercalate (pieces.take count)).length < cs.length := by
  cases count with
  | zero =>
    rw [take_zero, intercalate_nil]
    exact length_pos_of_ne_nil nonempty
  | succ count =>
    have longer : ds ≠ [] ∨ ∀ piece ∈ pieces, piece ≠ [] := by
      by_cases empty : ds = []
      · right
        intro piece member
        rw [IsSplit, if_pos empty] at split
        rw [split] at member
        obtain ⟨c, _, rfl⟩ := mem_map.mp member
        exact cons_ne_nil _ _
      · exact .inl empty
    have shorter := length_intercalate_take_lt (Nat.succ_pos count) fewer longer
    rw [split.intercalate] at shorter
    exact shorter

theorem Reads.length_unique (first : Reads order seed heap i cs)
    (second : Reads order seed heap i ds) : cs.length = ds.length := by
  obtain ⟨s, found, spells⟩ := first
  obtain ⟨t, foundAgain, spellsAgain⟩ := second
  cases found.symm.trans foundAgain
  exact spells.strlen.symm.trans spellsAgain.strlen

/-- `split` gives the pieces that it should, and `join` puts the string together again. -/
def JoinUndoesSplit (order : ByteOrder) (seed : UInt64) (estimate : Nat → Nat)
    (allocator : Allocator) (defaultEncoding : Encoding) (heap : StringHeap) (delim str : Nat)
    (ds cs : List Nat) : Prop :=
  ∃ heap' res pieces heap'' k, strSplit order heap delim str = .ok (heap', res) ∧
    ReadsAll order seed heap' res pieces ∧ PiecesExact ds cs pieces ∧
    strJoin order estimate allocator defaultEncoding heap' delim res = .ok (heap'', k) ∧
    Reads order seed heap'' k cs

theorem StringHeap.Sound.joinUndoesSplit_iff {delim : Nat} (sound : Sound order seed heap)
    (reads : Reads order seed heap str cs) (readsDelim : Reads order seed heap delim ds)
    (nonempty : cs ≠ []) (defaultEncoding : Encoding) :
    JoinUndoesSplit order seed estimate allocator defaultEncoding heap delim str ds cs ↔
      FewPieces ds cs := by
  obtain ⟨heap', res, pieces, run, later, grows, readsAll, split⟩ := strSplit_spec sound reads
    readsDelim nonempty
  obtain ⟨heap'', k, joined, whole⟩ := @strJoin_spec order seed estimate allocator heap' ds delim
    res pieces later (readsDelim.grows sound.disciplined grows) readsAll defaultEncoding
  rw [split.few_iff]
  rcases joinedCount_spec pieces.length with ⟨few, all⟩ | ⟨many, fewer⟩
  · rw [all, take_length, split.intercalate] at whole
    constructor
    · exact fun _ => few
    · exact fun _ => ⟨heap', res, pieces, heap'', k, run, readsAll, split.exact, joined, whole⟩
  constructor
  · rintro ⟨again, res', _, last, j, ran, _, _, joinedAgain, same⟩
    cases run.symm.trans ran
    cases joined.symm.trans joinedAgain
    have length := Reads.length_unique whole same
    have shorter := split.length_lt nonempty fewer
    omega
  · intro few
    exact absurd few many.not_gt

/-- `join` undoes `split` exactly when an `int` counts the pieces. -/
theorem join_undoes_split_iff {delim : Nat} (defaultEncoding : Encoding)
    (reached : StringRuns order estimate allocator initial heap)
    (reads : Reads order seed heap str cs) (readsDelim : Reads order seed heap delim ds)
    (nonempty : cs ≠ []) :
    JoinUndoesSplit order seed estimate allocator defaultEncoding heap delim str ds cs ↔
      FewPieces ds cs :=
  (reached.grows sound_initial).1.joinUndoesSplit_iff reads readsDelim nonempty defaultEncoding

/-- "ab", cut at the empty string and joined again. -/
theorem join_undoes_split_ab :
    JoinUndoesSplit .little 0 id alignedAllocator .ascii StringBuilder.abHeap 0 1 [] [97, 98] := by
  have reached : StringRuns .little id alignedAllocator initial StringBuilder.abHeap :=
    @StringRuns.call _ _ _ _ _ _ (.newInit [97, 98] .ascii .none) _ .refl ⟨nofun, trivial⟩ rfl
  have small : ∀ c ∈ [97, 98], c < 0x80 := by decide
  have ab : Reads .little 0 StringBuilder.abHeap 1 [97, 98] :=
    ⟨⟨.none, 1, 0, 2, .ascii, 2, 0⟩, rfl, small, rfl, rfl, .inl rfl⟩
  have few : FewPieces [] [97, 98] := by
    rw [FewPieces, if_pos rfl]
    decide
  exact (join_undoes_split_iff .ascii reached ab ⟨_, rfl, emptyString_spells⟩ (by decide)).mpr few

theorem reads_latin1 (buffer : List UInt8) (nonempty : buffer ≠ []) :
    ∃ heap i, StringRuns .little id alignedAllocator initial heap ∧
      Reads .little 0 heap i (buffer.map UInt8.toNat) := by
  have spells := @spells_single .little 0 .latin1 rfl buffer fun byte _ => byte.toNat_lt
  have made := @yields_newString .little 0 initial _ sound_initial alignedAllocator .none
    buffer.length _ (Spells .little 0 · _) le_rfl spells spells
  have call : strNewInit .little alignedAllocator initial buffer .latin1 .none =
      newString alignedAllocator initial .none buffer.length
        ⟨.latin1, buffer, buffer.length, 0⟩ := by
    rw [strNewInit, if_neg (by decide), if_pos nonempty]
    rfl
  rcases made with throws | ⟨heap, i, t, run, _, _, found, shows⟩
  · exact absurd throws (newString_not_throws _ _ _ _)
  have returned : StringOperation.run .little id alignedAllocator initial
      (.newInit buffer .latin1 .none) = .ok (heap, some i) := by
    rw [StringOperation.run, call, run]
    rfl
  exact ⟨heap, i, .call .refl ⟨fun _ member => absurd member not_mem_nil, trivial⟩ returned,
    t, found, shows⟩

/-- A string of 2^31 times "a" is cut into its characters, of which `join` sees only the first
one. -/
theorem join_loses_pieces : ∃ heap str, StringRuns .little id alignedAllocator initial heap ∧
    Reads .little 0 heap str (replicate (2 ^ 31) 97) ∧ Reads .little 0 heap 0 [] ∧
      ¬JoinUndoesSplit .little 0 id alignedAllocator .ascii heap 0 str []
        (replicate (2 ^ 31) 97) := by
  have some_ : ∀ (count : Nat) (byte : UInt8), 0 < count → replicate count byte ≠ [] := by
    intro count byte positive
    apply ne_nil_of_length_pos
    rw [length_replicate]
    exact positive
  obtain ⟨heap, str, reached, reads⟩ := reads_latin1 (replicate (2 ^ 31) 97)
    (some_ _ _ (Nat.two_pow_pos 31))
  have sound : Sound .little 0 heap := (reached.grows sound_initial).1
  have codes : (replicate (2 ^ 31) (97 : UInt8)).map UInt8.toNat =
      replicate (2 ^ 31) 97 := map_replicate
  rw [codes] at reads
  refine ⟨heap, str, reached, reads, sound.empty, ?_⟩
  have nonempty : replicate (2 ^ 31) 97 ≠ [] := by
    intro none
    have length := congrArg length none
    rw [length_replicate] at length
    exact absurd length (Nat.two_pow_pos 31).ne'
  rw [sound.joinUndoesSplit_iff reads sound.empty nonempty, FewPieces, if_pos rfl, length_replicate]
  exact lt_irrefl _

end

end RakudoStar.Strings
