import Mathlib.Data.List.Induction
import RakudoStar.Foundation.LittleEndian
import RakudoStar.Foundation.SharedBuffers

/-!
# Filenames of bytecode

The mappings of a debug segment from offsets to filenames, noted as constants:
`Parrot_debug_add_mapping` and `Parrot_debug_pc_to_filename`.
-/

namespace RakudoStar.Packfile.Debug

open Foundation List Option

structure Mapping where
  offset : Int
  filename : Nat
  deriving DecidableEq, Repr

/-- A debug segment and the string constants of its code. -/
structure Segment where
  constants : List (Option String)
  mappings : List Mapping
  deriving DecidableEq, Repr

/-- A pair that is added, and what the reallocated block holds behind the mappings. -/
structure Call where
  offset : Int
  filename : String
  fresh : Mapping

namespace Segment

variable (debug : Segment)

def filename? (mapping : Mapping) : Option String :=
  debug.constants[mapping.filename]?.join

/-- The filename of the last mapping. -/
def prevFilename : Option String :=
  debug.mappings.getLast?.bind debug.filename?

end Segment

def Mapping.bytes (mapping : Mapping) : List UInt8 :=
  signedToBytes 8 mapping.offset ++ toBytes 8 mapping.filename

def mappingAt (memory : List UInt8) (i : Nat) : Mapping where
  offset := signedOfBytes 8 ((memory.drop (16 * i)).take 8)
  filename := ofBytes ((memory.drop (16 * i + 8)).take 8)

/-- The mappings from a position on are moved, by `num_mappings - i` bytes. -/
def shiftMappings (mappings : List Mapping) (fresh : Mapping) (i : Nat) : List Mapping :=
  let memory := (mappings ++ [fresh]).flatMap Mapping.bytes
  let moved := overwrite memory (16 * (i + 1))
    ((memory.drop (16 * i)).take (mappings.length - i))
  (List.range (mappings.length + 1)).map (mappingAt moved)

/-- The new entry goes on the end, or to the right place with what is after it shifted. -/
def insertMapping (mappings : List Mapping) (fresh new : Mapping) : List Mapping :=
  if mappings.getLast?.all fun last => last.offset ≤ new.offset then mappings ++ [new]
  else
    let i := mappings.findIdx fun mapping => new.offset < mapping.offset
    (shiftMappings mappings fresh i).set i new

/-- The constants with the filename among them, which may be there already. -/
def Segment.noting (debug : Segment) (filename : String) : List (Option String) :=
  if debug.constants.findIdx (· = some filename) < debug.constants.length then debug.constants
  else debug.constants ++ [some filename]

def addMapping (debug : Segment) (call : Call) : Segment :=
  -- If the previous mapping has the same filename, don't record it.
  if debug.prevFilename = some call.filename then debug
  else
    { constants := debug.noting call.filename
      mappings := insertMapping debug.mappings call.fresh
        ⟨call.offset, debug.constants.findIdx (· = some call.filename)⟩ }

/-- The mapping that the loop of `Parrot_debug_pc_to_filename` ends with. -/
def inForce (pc : Int) : List Mapping → Option Mapping
  | [] => none
  | [last] => some last
  | mapping :: next :: rest =>
    if mapping.offset ≤ pc ∧ pc < next.offset then some mapping else inForce pc (next :: rest)

def pcToFilename (debug : Segment) (pc : Int) : Option String :=
  match inForce pc debug.mappings with
  | some mapping => debug.filename? mapping
  | none => some "(unknown file)"

def run (debug : Segment) (calls : List Call) : Segment :=
  calls.foldl addMapping debug

/-- Of the pairs that are not above the position, a later one replaces one that is not
greater. -/
def greater (pc : Int) (best : Option Call) (call : Call) : Option Call :=
  if call.offset ≤ pc ∧ ∀ other ∈ best, other.offset ≤ call.offset then some call else best

/-- The greatest offset not above the position, the latest of equal ones. -/
def greatest (added : List Call) (pc : Int) : Option Call :=
  added.foldl (greater pc) none

def fileAt (added : List Call) (pc : Int) : Option String :=
  (greatest added pc).map Call.filename

/-- The filename of the pair added last. -/
def lastFile (added : List Call) : Option String :=
  added.getLast?.map Call.filename

/-- No earlier offset is above that of the call, or the call names the last file. -/
def InOrder (added : List Call) (call : Call) : Prop :=
  (∀ other ∈ added, other.offset ≤ call.offset) ∨
    lastFile added = some call.filename ∧ fileAt added call.offset = some call.filename

def RunInOrder (calls : List Call) : Prop :=
  ∀ earlier call later, calls = earlier ++ call :: later → InOrder earlier call

variable {added : List Call} {call : Call}

section

variable {best : Call} {pc o : Int}

theorem greatest_append : greatest (added ++ [call]) pc = greater pc (greatest added pc) call :=
  foldl_concat ..

theorem greatest_mem (is : greatest added pc = some best) : best ∈ added := by
  induction added using List.reverseRecOn with
  | nil => cases is
  | append_singleton added call ih =>
    rw [greatest_append, greater] at is
    split at is
    · cases is
      exact mem_concat_self
    · exact mem_append_left _ (ih is)

theorem greatest_eq_none : greatest added pc = none ↔ ¬∃ call ∈ added, call.offset ≤ pc := by
  induction added using List.reverseRecOn with
  | nil => exact iff_of_true rfl fun ⟨_, absent, _⟩ => absurd absent not_mem_nil
  | append_singleton added call ih =>
    simp only [mem_append, or_and_right, exists_or, not_or, ← ih, mem_singleton, exists_eq_left]
    rw [greatest_append, greater]
    split
    · next taken => exact iff_of_false (fun none => by cases none) fun above => above.2 taken.1
    next passed =>
    refine ⟨fun none => ⟨none, fun inside => passed ⟨inside, ?_⟩⟩, And.left⟩
    rw [none]
    exact fun _ absent => by cases absent

theorem greatest_below (below : o ≤ pc) (reached : ∀ best ∈ greatest added pc, best.offset ≤ o) :
    greatest added o = greatest added pc := by
  induction added using List.reverseRecOn with
  | nil => rfl
  | append_singleton added call ih =>
    rw [greatest_append, greatest_append] at *
    unfold greater at *
    split at reached
    · next taken =>
      have before := ih fun best is => Int.le_trans (taken.2 best is) (reached call rfl)
      rw [before, if_pos taken, if_pos ⟨reached call rfl, taken.2⟩]
    next passed =>
    rw [ih reached, if_neg passed, if_neg]
    exact fun taken => passed ⟨Int.le_trans taken.1 below, taken.2⟩

end

theorem inForce_eq {mappings : List Mapping} {pc : Int}
    (sorted : mappings.Pairwise fun left right => left.offset ≤ right.offset) :
    inForce pc mappings = (mappings.filter (·.offset ≤ pc)).getLast?.or mappings.getLast? := by
  fun_induction inForce pc mappings with
  | case1 => rfl
  | case2 last =>
    rw [filter_cons]
    split <;> rfl
  | case3 mapping next rest within =>
    rw [filter_cons, if_pos (decide_eq_true within.1), filter_eq_nil_iff.mpr]
    · rfl
    intro other mem
    rw [decide_eq_true_eq, Int.not_le]
    rcases mem_cons.mp mem with rfl | later
    · exact within.2
    · exact Int.lt_of_lt_of_le within.2 ((pairwise_cons.mp sorted.tail).1 other later)
  | case4 mapping next rest outside ih =>
    rw [ih sorted.tail, getLast?_cons_cons, filter_cons (x := mapping)]
    split
    · next reached =>
      have reachedNext : next.offset ≤ pc :=
        Int.not_lt.mp fun less => outside ⟨of_decide_eq_true reached, less⟩
      rw [filter_cons, if_pos (decide_eq_true reachedNext), getLast?_cons_cons]
    · rfl

variable {debug : Segment}

section

variable {filename : String}

theorem prefix_noting : debug.constants <+: debug.noting filename := by
  rw [Segment.noting]
  split
  · exact prefix_rfl
  · exact prefix_append ..

theorem noting_findIdx : (debug.noting filename)[debug.constants.findIdx (· = some filename)]? =
      some (some filename) := by
  rw [Segment.noting]
  split
  · next found =>
    rw [getElem?_eq_getElem found]
    exact congrArg some (of_decide_eq_true (findIdx_getElem (w := found)))
  next absent =>
  have count := le_antisymm findIdx_le_length (not_lt.mp absent)
  rw [count, getElem?_concat_length]

end

/-- The mappings and constants that were there stay. -/
def Extends (before after : Segment) : Prop :=
  before.mappings <+: after.mappings ∧ before.constants <+: after.constants

/-- The filename of the last mapping that is not above the position. -/
def Segment.lookup (debug : Segment) (pc : Int) : Option String :=
  (debug.mappings.filter (·.offset ≤ pc)).getLast?.bind debug.filename?

/-- The mappings are sorted, have filenames, and answer for the pairs that were added. -/
structure Represents (added : List Call) (debug : Segment) : Prop where
  sorted : debug.mappings.Pairwise fun left right => left.offset ≤ right.offset
  named : ∀ mapping ∈ debug.mappings, ∃ name, debug.filename? mapping = some name
  reached : ∀ mapping ∈ debug.mappings, ∃ call ∈ added, mapping.offset ≤ call.offset
  last : debug.prevFilename = lastFile added
  lookup : ∀ pc, debug.lookup pc = fileAt added pc

namespace Represents

section
variable (rep : Represents added debug) {o : Int}
include rep

theorem below (behind : ∀ other ∈ added, other.offset ≤ o) : ∀ mapping ∈ debug.mappings,
      mapping.offset ≤ o := by
  intro mapping mem
  obtain ⟨other, known, atMost⟩ := rep.reached mapping mem
  exact Int.le_trans atMost (behind other known)

theorem fileAt_behind (behind : ∀ other ∈ added, other.offset ≤ o) :
    fileAt added o = lastFile added := by
  rw [← rep.lookup, ← rep.last, Segment.lookup, filter_eq_self.mpr]
  · rfl
  · exact fun mapping mem => decide_eq_true (rep.below behind mapping mem)

theorem skip (inOrder : InOrder added call) (same : debug.prevFilename = some call.filename) :
    Represents (added ++ [call]) debug where
  sorted := rep.sorted
  named := rep.named
  reached mapping mem := by
    obtain ⟨other, known, atMost⟩ := rep.reached mapping mem
    exact ⟨other, mem_append_left _ known, atMost⟩
  last := by rw [same, lastFile, getLast?_concat, map_some]
  lookup pc := by
    have here : fileAt added call.offset = some call.filename := by
      rcases inOrder with behind | ⟨-, names⟩
      · rw [rep.fileAt_behind behind, ← rep.last, same]
      · exact names
    rw [rep.lookup, fileAt, fileAt, greatest_append, greater]
    split
    · next taken =>
      rw [← greatest_below taken.1 taken.2]
      exact here
    · rfl

theorem record (behind : ∀ other ∈ added, other.offset ≤ call.offset)
    (differ : debug.prevFilename ≠ some call.filename) :
    Represents (added ++ [call]) (addMapping debug call) ∧
      Extends debug (addMapping debug call) := by
  set new : Mapping := ⟨call.offset, debug.constants.findIdx (· = some call.filename)⟩
  set after : Segment := ⟨debug.noting call.filename, debug.mappings ++ [new]⟩ with afterIs
  have below := rep.below behind
  have added_ : addMapping debug call = after := by
    rw [addMapping, if_neg differ, insertMapping, if_pos]
    rw [Option.all_eq_true]
    exact fun last isLast => decide_eq_true (below last (mem_of_getLast? isLast))
  have newNamed : after.filename? new = some call.filename := by
    rw [Segment.filename?, noting_findIdx]
    rfl
  have oldNamed : ∀ mapping ∈ debug.mappings,
      after.filename? mapping = debug.filename? mapping := by
    intro mapping mem
    obtain ⟨name, named⟩ := rep.named mapping mem
    obtain ⟨more, extended⟩ := @prefix_noting debug call.filename
    rw [Segment.filename?, join_eq_some_iff] at named
    rw [Segment.filename?, Segment.filename?, afterIs, ← extended,
      getElem?_append_left (List.getElem?_eq_some_iff.mp named).1]
  rw [added_]
  refine ⟨?_, prefix_append .., prefix_noting⟩
  constructor
  · refine pairwise_append.mpr ⟨rep.sorted, pairwise_singleton .., ?_⟩
    intro mapping mem last isNew
    exact mem_singleton.mp isNew ▸ below mapping mem
  · intro mapping mem
    rcases mem_append.mp mem with old | isNew
    · rw [oldNamed mapping old]
      exact rep.named mapping old
    · exact ⟨_, mem_singleton.mp isNew ▸ newNamed⟩
  · intro mapping mem
    refine ⟨call, mem_concat_self, ?_⟩
    rcases mem_append.mp mem with old | isNew
    · exact below mapping old
    · exact mem_singleton.mp isNew ▸ Int.le_refl _
  · rw [Segment.prevFilename, getLast?_concat, lastFile, getLast?_concat]
    exact newNamed
  · intro pc
    have passed : ∀ best ∈ greatest added pc, best.offset ≤ call.offset :=
      fun best is => behind best (greatest_mem is)
    rw [Segment.lookup, filter_append, filter_cons, fileAt, greatest_append, greater, filter_nil]
    by_cases inside : call.offset ≤ pc
    · rw [if_pos (decide_eq_true inside), getLast?_concat, if_pos ⟨inside, passed⟩]
      exact newNamed
    rw [if_neg fun reached => inside (of_decide_eq_true reached), append_nil,
      if_neg fun taken => inside taken.1, ← fileAt, ← rep.lookup, Segment.lookup]
    cases isLast : (debug.mappings.filter (·.offset ≤ pc)).getLast? with
    | none => rfl
    | some mapping =>
      exact oldNamed mapping (mem_filter.mp (mem_of_getLast? isLast)).1

theorem step (inOrder : InOrder added call) : Represents (added ++ [call]) (addMapping debug call) ∧
      Extends debug (addMapping debug call) := by
  by_cases same : debug.prevFilename = some call.filename
  · rw [addMapping, if_pos same]
    exact ⟨rep.skip inOrder same, prefix_rfl, prefix_rfl⟩
  · exact rep.record (inOrder.resolve_right fun names => same (rep.last.trans names.1)) same

theorem pcToFilename_eq (pc : Int) : pcToFilename debug pc =
      ((fileAt added pc).or (lastFile added)).or (some "(unknown file)") := by
  rw [pcToFilename, inForce_eq rep.sorted, ← rep.lookup, ← rep.last, Segment.lookup,
    Segment.prevFilename]
  cases within : (debug.mappings.filter (·.offset ≤ pc)).getLast? with
  | some mapping =>
    obtain ⟨name, named⟩ := rep.named mapping (mem_filter.mp (mem_of_getLast? within)).1
    change debug.filename? mapping = ((debug.filename? mapping).or _).or (some "(unknown file)")
    rw [named, some_or, some_or]
  | none =>
    cases isLast : debug.mappings.getLast? with
    | some mapping =>
      obtain ⟨name, named⟩ := rep.named mapping (mem_of_getLast? isLast)
      change debug.filename? mapping = (debug.filename? mapping).or (some "(unknown file)")
      rw [named, some_or]
    | none => rfl

end

end Represents

section

variable {constants : List (Option String)} {calls earlier later : List Call}

theorem RunInOrder.of_append (inOrder : RunInOrder (earlier ++ later)) : RunInOrder earlier := by
  rintro front call back rfl
  apply inOrder front call (back ++ later)
  rw [append_assoc, cons_append]

theorem run_represents (constants : List (Option String)) (inOrder : RunInOrder calls) :
    Represents calls (run ⟨constants, []⟩ calls) := by
  induction calls using List.reverseRecOn with
  | nil =>
    exact ⟨.nil, fun _ absent => absurd absent not_mem_nil,
      fun _ absent => absurd absent not_mem_nil, rfl, fun _ => rfl⟩
  | append_singleton calls call ih =>
    rw [run, foldl_concat]
    exact ((ih inOrder.of_append).step (inOrder calls call [] rfl)).1

theorem run_extends (inOrder : RunInOrder (earlier ++ later)) :
    Extends (run ⟨constants, []⟩ earlier) (run ⟨constants, []⟩ (earlier ++ later)) := by
  induction later using List.reverseRecOn with
  | nil =>
    rw [append_nil]
    exact ⟨prefix_rfl, prefix_rfl⟩
  | append_singleton later call ih =>
    rw [← append_assoc] at inOrder ⊢
    have before := ih inOrder.of_append
    have step := (run_represents constants inOrder.of_append).step
      (inOrder (earlier ++ later) call [] rfl)
    rw [run, run, foldl_concat]
    exact ⟨before.1.trans step.2.1, before.2.trans step.2.2⟩

end

/-- While the offsets come in order, the mappings stay sorted, the recorded ones stay, and
they answer for every position that is not before the first pair. -/
theorem mappings_exact (constants : List (Option String)) (earlier later : List Call)
    (inOrder : RunInOrder (earlier ++ later)) :
    (run ⟨constants, []⟩ (earlier ++ later)).mappings.Pairwise
        (fun left right => left.offset ≤ right.offset) ∧
      Extends (run ⟨constants, []⟩ earlier) (run ⟨constants, []⟩ (earlier ++ later)) ∧
      ∀ pc, pcToFilename (run ⟨constants, []⟩ (earlier ++ later)) pc =
          (fileAt (earlier ++ later) pc).or (some "(unknown file)") ↔
        (∃ call ∈ earlier ++ later, call.offset ≤ pc) ∨
          (lastFile (earlier ++ later)).getD "(unknown file)" = "(unknown file)" := by
  have rep := run_represents constants inOrder
  refine ⟨rep.sorted, run_extends inOrder, fun pc => ?_⟩
  rw [rep.pcToFilename_eq, fileAt]
  cases is : greatest (earlier ++ later) pc with
  | some best =>
    refine iff_of_true rfl (.inl (Classical.byContradiction fun above => ?_))
    rw [greatest_eq_none.mpr above] at is
    cases is
  | none =>
    rw [or_iff_right (greatest_eq_none.mp is)]
    cases lastFile (earlier ++ later) with
    | some name => exact some_inj
    | none => exact iff_of_true rfl rfl

/-- Two files in order, the second one from the tenth operation on. -/
theorem mappings_exact_two : pcToFilename (run ⟨[], []⟩ [⟨0, "a", ⟨0, 0⟩⟩, ⟨10, "b", ⟨0, 0⟩⟩]) 12 =
        (fileAt [⟨0, "a", ⟨0, 0⟩⟩, ⟨10, "b", ⟨0, 0⟩⟩] 12).or (some "(unknown file)") ↔
      (∃ call ∈ ([⟨0, "a", ⟨0, 0⟩⟩, ⟨10, "b", ⟨0, 0⟩⟩] : List Call), call.offset ≤ 12) ∨
        ("b" : String) = "(unknown file)" := by
  have inOrder : RunInOrder ([⟨0, "a", ⟨0, 0⟩⟩] ++ [⟨10, "b", ⟨0, 0⟩⟩]) := by
    intro earlier call later same
    cases earlier with
    | nil => exact .inl fun _ absent => absurd absent not_mem_nil
    | cons first earlier =>
      obtain ⟨rfl, same⟩ := List.cons.inj same
      cases earlier with
      | nil =>
        cases same
        refine .inl fun other mem => ?_
        cases mem_singleton.mp mem
        decide
      | cons second earlier =>
        have short := congrArg length (List.cons.inj same).2
        simp at short
  exact (mappings_exact [] [⟨0, "a", ⟨0, 0⟩⟩] [⟨10, "b", ⟨0, 0⟩⟩] inOrder).2.2 12

/-- A file for the fifth operation, added last, takes the file of the tenth one away. -/
theorem inserted_mapping_destroys :
    pcToFilename (run ⟨[], []⟩ [⟨0, "a", ⟨0, 0⟩⟩, ⟨10, "b", ⟨0, 0⟩⟩, ⟨5, "c", ⟨0, 0⟩⟩]) 10 ≠
      fileAt [⟨0, "a", ⟨0, 0⟩⟩, ⟨10, "b", ⟨0, 0⟩⟩, ⟨5, "c", ⟨0, 0⟩⟩] 10 := by
  decide

end RakudoStar.Packfile.Debug
